import Mathlib.Data.List.Forall2
import WordMachine.Proofs.Assembly.Line
import WordMachine.Proofs.Instruction.Accepted
import WordMachine.Proofs.Text.Lines

/-!
Instructions as assembly. The text of an instruction is a line that assembles to its word, and the
texts of a program, one to a line, assemble to its words.
-/

namespace WordMachine

namespace Mnemonic

theorem ofToken?_text (mnemonic : Mnemonic) : ofToken? mnemonic.text = some mnemonic := by
  cases mnemonic <;> decide

theorem isPlain_text (mnemonic : Mnemonic) : IsPlain mnemonic.text := by
  cases mnemonic <;> exact isPlain_of_all rfl rfl

end Mnemonic

namespace Instruction
open OperandKind Assembly

def mnemonic : Instruction → Mnemonic
  | .halt => .hlt
  | .put .. => .put
  | .get .. => .get
  | .add .. => .add
  | .mlt .. => .mlt
  | .addi .. => .addi
  | .slti .. => .slti
  | .lw .. => .lw
  | .sw .. => .sw
  | .bne .. => .bne
  | .jal .. => .jal
  | .lui .. => .lui

def values : (i : Instruction) → Operands i.mnemonic.operandKinds
  | .halt => ()
  | .put value base offset | .get value base offset => (value, base, offset, ())
  | .add rd rs1 rs2 | .mlt rd rs1 rs2 => (rd, rs1, rs2, ())
  | .addi rd rs1 imm | .slti rd rs1 imm => (rd, rs1, imm, ())
  | .lw rd base offset => (rd, base, offset, ())
  | .sw base offset value => (base, offset, value, ())
  | .bne rs1 rs2 offset => (rs1, rs2, offset, ())
  | .jal rd imm | .lui rd imm => (rd, imm, ())

theorem instruction_values (i : Instruction) : i.mnemonic.instruction i.values = i := by
  cases i <;> rfl

theorem tokens_eq (i : Instruction) :
    i.tokens = i.mnemonic.text :: writeAll i.mnemonic.operandKinds i.values := by
  cases i <;> rfl

theorem namedAll_values {i : Instruction} (general : .pc ∉ i.registers) :
    NamedAll i.mnemonic.operandKinds i.values := by
  cases i with
  | halt => trivial
  | _ => simpa [registers, values, mnemonic, NamedAll, Named, eq_comm] using general

theorem isPlain_of_mem_tokens {i : Instruction} {token : String} (member : token ∈ i.tokens) :
    IsPlain token := by
  rw [tokens_eq, List.mem_cons] at member
  rcases member with rfl | operand
  · exact i.mnemonic.isPlain_text
  · exact isPlain_of_mem_writeAll operand

theorem read?_text (i : Instruction) :
    SourceLine.read? i.text.toList =
      some (.operation i.mnemonic.text (writeAll i.mnemonic.operandKinds i.values)) := by
  rw [text, tokens_eq]
  apply SourceLine.read?_join
  intro token member
  rw [← tokens_eq] at member
  exact (isPlain_of_mem_tokens member).isToken

theorem instruction_tokens {i : Instruction} (general : .pc ∉ i.registers) :
    Assembly.instruction i.mnemonic.text (writeAll i.mnemonic.operandKinds i.values) = .ok i := by
  simp only [Assembly.instruction, Mnemonic.ofToken?_text, length_writeAll, ↓reduceDIte,
    readAll_writeAll (namedAll_values general), instruction_values]

theorem assembleLine_text {i : Instruction} {word : Word} (encoded : i.encode = .ok word) :
    assembleLine i.text.toList = .ok (some word) := by
  simp only [assembleLine, read?_text, instruction_tokens (general_of_encode encoded), encoded]

theorem text_ne_nil (i : Instruction) : i.text.toList ≠ [] := by
  intro empty
  have read := i.read?_text
  rw [empty] at read
  cases read

theorem mem_text {i : Instruction} {c : Char} (member : c ∈ i.text.toList) :
    c = ' ' ∨ isPlainChar c = true := by
  rcases mem_join member with rfl | ⟨token, known, inside⟩
  · exact Or.inl rfl
  · exact Or.inr ((isPlain_of_mem_tokens known).2 c inside)

theorem feed_not_mem_text (i : Instruction) : '\n' ∉ i.text.toList :=
  fun member => absurd (mem_text member) (by decide)

theorem getLast?_text_ne_return (i : Instruction) : i.text.toList.getLast? ≠ some '\r' :=
  fun last => absurd (mem_text (List.mem_of_getLast? last)) (by decide)

def listing (program : List Instruction) : String := "\n".intercalate (program.map text)

theorem lines_listing (program : List Instruction) :
    lines (listing program).toList = program.map fun i => i.text.toList := by
  induction program with
  | nil => rfl
  | cons i program ih =>
    cases program with
    | nil => exact lines_of_noFeed i.text_ne_nil i.feed_not_mem_text
    | cons j rest =>
      have joined : (listing (i :: j :: rest)).toList =
          i.text.toList ++ '\n' :: (listing (j :: rest)).toList := by
        simp only [listing, List.map_cons, String.intercalate_cons_cons, String.toList_append,
          List.append_assoc]
        rfl
      rw [joined, lines_append_feed i.feed_not_mem_text i.getLast?_text_ne_return, ih]
      rfl

theorem assembleLines_texts {program : List Instruction} {words : List Word}
    (encoded : List.Forall₂ (fun i word => encode i = .ok word) program words) (number : Nat) :
    assembleLines number (program.map fun i => i.text.toList) = .ok words := by
  induction encoded generalizing number with
  | nil => rfl
  | cons first _ ih =>
    simp only [List.map_cons, assembleLines, assembleLine_text first, ih, Option.toList_some,
      List.singleton_append]

theorem assemble_listing {program : List Instruction} {words : List Word}
    (encoded : List.Forall₂ (fun i word => encode i = .ok word) program words) :
    assemble (listing program) = .ok words := by
  rw [assemble, lines_listing, assembleLines_texts encoded]

theorem encoded_of_decoded {words : List Word} {program : List Instruction}
    (decoded : List.Forall₂ (fun word i => decode word = .ok i) words program) :
    ∃ again, List.Forall₂ (fun i word => encode i = .ok word) program again := by
  induction decoded with
  | nil => exact ⟨[], .nil⟩
  | cons first _ ih =>
    obtain ⟨again, rest⟩ := ih
    exact ⟨_ :: again, .cons (encode_of_decode first) rest⟩

theorem encoded_of_assembleLines {number : Nat} {texts : List (List Char)} {words : List Word}
    (assembled : assembleLines number texts = .ok words) :
    ∃ program, List.Forall₂ (fun i word => encode i = .ok word) program words := by
  induction texts generalizing number words with
  | nil =>
    cases assembled
    exact ⟨[], .nil⟩
  | cons line texts ih =>
    simp only [assembleLines] at assembled
    split at assembled
    · cases assembled
    · rename_i word? first
      split at assembled
      · cases assembled
      · rename_i later rest
        cases assembled
        obtain ⟨program, encoded⟩ := ih rest
        cases word? with
        | none => exact ⟨program, encoded⟩
        | some word =>
          obtain ⟨i, _, known⟩ := denotes_of_assembleLine first
          exact ⟨i :: program, .cons known encoded⟩

theorem exists_encode_of_mem {program : List Instruction} {words : List Word}
    (encoded : List.Forall₂ (fun i word => encode i = .ok word) program words) {word : Word}
    (member : word ∈ words) : ∃ i, encode i = .ok word := by
  induction encoded with
  | nil => cases member
  | cons first _ ih =>
    rcases List.mem_cons.mp member with rfl | later
    · exact ⟨_, first⟩
    · exact ih later

/-- Words that decode come back from the text of their instructions as their instructions encode
    them, and words that the assembler made come back unchanged. -/
theorem listing_reassembles :
    (∀ words program, List.Forall₂ (fun word i => decode word = .ok i) words program →
      ∃ again, assemble (listing program) = .ok again ∧
        List.Forall₂ (fun i word => encode i = .ok word) program again) ∧
    ∀ source words, assemble source = .ok words →
      ∃ program, List.Forall₂ (fun word i => decode word = .ok i) words program ∧
        assemble (listing program) = .ok words := by
  constructor
  · intro words program decoded
    obtain ⟨again, encoded⟩ := encoded_of_decoded decoded
    exact ⟨again, assemble_listing encoded, encoded⟩
  · intro source words assembled
    obtain ⟨program, encoded⟩ := encoded_of_assembleLines assembled
    exact ⟨program, encoded.flip.imp fun _ _ => decode_of_encode, assemble_listing encoded⟩

theorem listing_reassembles_reserved_bits_and_shorthand :
    (∃ again,
      assemble (listing [mlt (.x 8) (.x 1) (.x 2), sw (.x 7) ⟨0xFFC#12⟩ (.x 8)]) = .ok again ∧
        List.Forall₂ (fun i word => encode i = .ok word)
          [mlt (.x 8) (.x 1) (.x 2), sw (.x 7) ⟨0xFFC#12⟩ (.x 8)] again) ∧
    ∃ program,
      List.Forall₂ (fun word i => decode word = .ok i) [0x0A107FF8#32, 0#32] program ∧
        assemble (listing program) = .ok [0x0A107FF8#32, 0#32] :=
  ⟨listing_reassembles.1 [0x08808BFF#32, 0x14747FE7#32] _ (.cons rfl (.cons rfl .nil)),
    listing_reassembles.2 "set x1, -1\nHALT # the end" _ rfl⟩

end Instruction

end WordMachine
