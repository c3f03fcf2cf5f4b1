import WordMachine.Assembly.Program
import WordMachine.Proofs.Assembly.Operand
import WordMachine.Proofs.Instruction.Code

/-!
What becomes of a line of assembly. A line can name general registers only, so an instruction that
stands on a line has a word, and whatever is wrong with a line is wrong with its text.
-/

namespace WordMachine

theorem Mnemonic.general_instruction {mnemonic : Mnemonic}
    {values : Operands mnemonic.operandKinds}
    (named : OperandKind.NamedAll mnemonic.operandKinds values) :
    .pc ∉ (mnemonic.instruction values).registers := by
  cases mnemonic with
  | hlt | nop => simp [instruction, Instruction.registers, Register.zero]
  | set =>
    simpa [instruction, Instruction.registers, OperandKind.NamedAll, OperandKind.Named,
      Register.zero, eq_comm] using named
  | _ =>
    simpa [instruction, Instruction.registers, OperandKind.NamedAll, OperandKind.Named, eq_comm]
      using named

/-- Something about the text is wrong, and not about a word that was to be made of it. -/
def AssemblyCause.InText : AssemblyCause → Prop
  | .unencodable _ => False
  | _ => True

namespace OperandKind

theorem inText_of_readRegister {token : String} {cause : AssemblyCause}
    (refused : readRegister token = .error cause) : cause.InText := by
  simp only [readRegister] at refused
  split at refused
  · split at refused
    · split at refused
      · cases refused
      · cases refused
        trivial
    · cases refused
      trivial
  · cases refused
    trivial

theorem inText_of_readImmediate {width : Nat} {token : String} {cause : AssemblyCause}
    (refused : readImmediate width token = .error cause) : cause.InText := by
  simp only [readImmediate] at refused
  split at refused
  · split at refused
    · cases refused
    · cases refused
      trivial
  · cases refused
    trivial

theorem inText_of_read {kind : OperandKind} {token : String} {cause : AssemblyCause}
    (refused : kind.read token = .error cause) : cause.InText := by
  cases kind with
  | register => exact inText_of_readRegister refused
  | imm12 | imm20 => exact inText_of_readImmediate refused

theorem inText_of_readAll {kinds : List OperandKind} {tokens : List String}
    {same : tokens.length = kinds.length} {cause : AssemblyCause}
    (refused : readAll kinds tokens same = .error cause) : cause.InText := by
  induction kinds generalizing tokens with
  | nil =>
    rw [readAll] at refused
    cases refused
  | cons kind kinds ih =>
    cases tokens with
    | nil => cases same
    | cons token tokens =>
      rw [readAll] at refused
      split at refused
      · rename_i first
        cases refused
        exact inText_of_read first
      · split at refused
        · rename_i rest
          cases refused
          exact ih rest
        · cases refused

end OperandKind

namespace Assembly

theorem general_of_instruction {name : String} {operands : List String} {i : Instruction}
    (made : instruction name operands = .ok i) : .pc ∉ i.registers := by
  rw [instruction] at made
  split at made
  · cases made
  · split at made
    · split at made
      · cases made
      · rename_i read
        cases made
        exact Mnemonic.general_instruction (OperandKind.namedAll_of_readAll read)
    · cases made

theorem inText_of_instruction {name : String} {operands : List String} {cause : AssemblyCause}
    (refused : instruction name operands = .error cause) : cause.InText := by
  rw [instruction] at refused
  split at refused
  · cases refused
    trivial
  · split at refused
    · split at refused
      · rename_i read
        cases refused
        exact OperandKind.inText_of_readAll read
      · cases refused
    · cases refused
      trivial

def Denotes (line : List Char) (i : Instruction) : Prop :=
  ∃ name operands, SourceLine.read? line = some (.operation name operands) ∧
    instruction name operands = .ok i

theorem assembleLine_of_blank {line : List Char} (blank : IsBlankLine line) :
    assembleLine line = .ok none := by
  have read := SourceLine.read?_eq_blank_iff.mpr blank
  simp only [assembleLine, read]

theorem assembleLine_of_denotes {line : List Char} {i : Instruction} (denotes : Denotes line i) :
    ∃ word, i.encode = .ok word ∧ assembleLine line = .ok (some word) := by
  obtain ⟨name, operands, read, made⟩ := denotes
  obtain ⟨word, encoded, _⟩ := Instruction.encode_of_general (general_of_instruction made)
  refine ⟨word, encoded, ?_⟩
  simp only [assembleLine, read, made, encoded]

theorem assembleLine_of_neither {line : List Char} (spoken : ¬ IsBlankLine line)
    (meaningless : ∀ i, ¬ Denotes line i) :
    ∃ cause, assembleLine line = .error cause ∧ cause.InText := by
  cases read : SourceLine.read? line with
  | none =>
    refine ⟨.malformed (String.ofList (trim line)), ?_, trivial⟩
    simp only [assembleLine, read]
  | some source =>
    cases source with
    | blank => exact absurd (SourceLine.read?_eq_blank_iff.mp read) spoken
    | operation name operands =>
      cases made : instruction name operands with
      | ok i => exact absurd ⟨name, operands, read, made⟩ (meaningless i)
      | error cause =>
        refine ⟨cause, ?_, inText_of_instruction made⟩
        simp only [assembleLine, read, made]

theorem Denotes.unique {line : List Char} {i j : Instruction} (first : Denotes line i)
    (second : Denotes line j) : i = j := by
  obtain ⟨name, operands, read, made⟩ := first
  obtain ⟨again, others, alsoRead, alsoMade⟩ := second
  rw [read] at alsoRead
  cases alsoRead
  rw [made] at alsoMade
  cases alsoMade
  rfl

theorem denotes_of_assembleLine {line : List Char} {word : Word}
    (assembled : assembleLine line = .ok (some word)) :
    ∃ i, Denotes line i ∧ i.encode = .ok word := by
  by_cases blank : IsBlankLine line
  · rw [assembleLine_of_blank blank] at assembled
    cases assembled
  · by_cases named : ∃ i, Denotes line i
    · obtain ⟨i, denotes⟩ := named
      obtain ⟨known, encoded, same⟩ := assembleLine_of_denotes denotes
      rw [same] at assembled
      cases assembled
      exact ⟨i, denotes, encoded⟩
    · obtain ⟨cause, refused, _⟩ := assembleLine_of_neither blank (not_exists.mp named)
      rw [refused] at assembled
      cases assembled

theorem inText_of_assembleLine {line : List Char} {cause : AssemblyCause}
    (refused : assembleLine line = .error cause) : cause.InText := by
  by_cases blank : IsBlankLine line
  · rw [assembleLine_of_blank blank] at refused
    cases refused
  · by_cases named : ∃ i, Denotes line i
    · obtain ⟨i, denotes⟩ := named
      obtain ⟨word, _, assembled⟩ := assembleLine_of_denotes denotes
      rw [assembled] at refused
      cases refused
    · obtain ⟨other, known, inText⟩ := assembleLine_of_neither blank (not_exists.mp named)
      rw [known] at refused
      cases refused
      exact inText

theorem inText_of_assembleLines {number : Nat} {texts : List (List Char)} {error : AssemblyError}
    (refused : assembleLines number texts = .error error) : error.cause.InText := by
  induction texts generalizing number with
  | nil => cases refused
  | cons line texts ih =>
    rw [assembleLines] at refused
    cases known : assembleLine line with
    | error cause =>
      rw [known] at refused
      cases refused
      exact inText_of_assembleLine known
    | ok word? =>
      rw [known] at refused
      cases later : assembleLines (number + 1) texts with
      | error other =>
        rw [later] at refused
        cases refused
        exact ih later
      | ok words =>
        rw [later] at refused
        cases refused

theorem exists_denotes_of_mem {number : Nat} {texts : List (List Char)} {words : List Word}
    (assembled : assembleLines number texts = .ok words) {word : Word} (member : word ∈ words) :
    ∃ line ∈ texts, ∃ i, Denotes line i ∧ i.encode = .ok word := by
  induction texts generalizing number words with
  | nil =>
    cases assembled
    cases member
  | cons line texts ih =>
    rw [assembleLines] at assembled
    cases first : assembleLine line with
    | error cause =>
      rw [first] at assembled
      cases assembled
    | ok word? =>
      rw [first] at assembled
      cases rest : assembleLines (number + 1) texts with
      | error error =>
        rw [rest] at assembled
        cases assembled
      | ok later =>
        rw [rest] at assembled
        cases assembled
        rcases List.mem_append.mp member with here | there
        · rw [Option.mem_toList] at here
          cases here
          obtain ⟨i, known⟩ := denotes_of_assembleLine first
          exact ⟨line, List.mem_cons_self .., i, known⟩
        · obtain ⟨other, known, found⟩ := ih rest there
          exact ⟨other, List.mem_cons_of_mem line known, found⟩

end Assembly

end WordMachine
