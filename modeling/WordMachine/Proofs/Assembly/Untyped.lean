import WordMachine.Proofs.Assembly.Line
import WordMachine.Proofs.Assembly.Listing

/-!
Assembly with operands of which nothing is known. A mnemonic takes whatever operands come, a number
becomes a register and an instruction a word without a proof that they can, and each of these may be
refused on the spot. Such a refusal would be a mistake of the assembler. There is none: on every
text this assembly comes to the same as the other one, and all its words are words of instructions.
-/

namespace WordMachine

namespace Untyped

inductive Operand where
  | register (r : Register)
  | imm12 (imm : Imm 12)
  | imm20 (imm : Imm 20)
  deriving DecidableEq, Repr

/-- Why there is no word: something in the text, or a mistake of the assembler. -/
inductive Refusal where
  | text (cause : AssemblyCause)
  /-- The operands are not those that the mnemonic takes. -/
  | signature (mnemonic : Mnemonic)
  | encoding (error : EncodingError)
  deriving DecidableEq, Repr

def build : Mnemonic → List Operand → Except Refusal Instruction
  | .hlt, [] => .ok .halt
  | .put, [.register value, .register base, .register offset] => .ok (.put value base offset)
  | .get, [.register value, .register base, .register offset] => .ok (.get value base offset)
  | .add, [.register rd, .register rs1, .register rs2] => .ok (.add rd rs1 rs2)
  | .mlt, [.register rd, .register rs1, .register rs2] => .ok (.mlt rd rs1 rs2)
  | .addi, [.register rd, .register rs1, .imm12 imm] => .ok (.addi rd rs1 imm)
  | .slti, [.register rd, .register rs1, .imm12 imm] => .ok (.slti rd rs1 imm)
  | .lw, [.register rd, .register base, .imm12 offset] => .ok (.lw rd base offset)
  | .sw, [.register base, .imm12 offset, .register value] => .ok (.sw base offset value)
  | .bne, [.register rs1, .register rs2, .imm12 offset] => .ok (.bne rs1 rs2 offset)
  | .jal, [.register rd, .imm20 offset] => .ok (.jal rd offset)
  | .lui, [.register rd, .imm20 imm] => .ok (.lui rd imm)
  | .set, [.register rd, .imm12 imm] => .ok (.addi rd .zero imm)
  | .nop, [] => .ok (.addi .zero .zero ⟨0⟩)
  | mnemonic, _ => .error (.signature mnemonic)

def readRegister (token : String) : Except Refusal Operand :=
  match token.toList with
  | 'x' :: digits =>
    match numeral? digits with
    | some number =>
      if number < Register.generalCount then
        ((Register.general number).mapError .encoding).map .register
      else .error (.text (.registerOutOfRange token))
    | none => .error (.text (.expectedRegister token))
  | _ => .error (.text (.expectedRegister token))

def readImmediate {width : Nat} (make : Imm width → Operand) (token : String) :
    Except Refusal Operand :=
  match integer? token.toList with
  | some value =>
    match Imm.ofInt? width value with
    | some imm => .ok (make imm)
    | none => .error (.text (.immediateOutOfRange token width))
  | none => .error (.text (.expectedImmediate token))

def read : OperandKind → String → Except Refusal Operand
  | .register, token => readRegister token
  | .imm12, token => readImmediate .imm12 token
  | .imm20, token => readImmediate .imm20 token

def readAll : List OperandKind → List String → Except Refusal (List Operand)
  | kind :: kinds, token :: tokens => do
    let operand ← read kind token
    let operands ← readAll kinds tokens
    return operand :: operands
  | _, _ => .ok []

def instruction (name : String) (tokens : List String) : Except Refusal Instruction :=
  match Mnemonic.ofToken? name with
  | none => .error (.text (.unknownOperation name))
  | some mnemonic =>
    if tokens.length = mnemonic.operandKinds.length then do
      let operands ← readAll mnemonic.operandKinds tokens
      build mnemonic operands
    else .error (.text (.wrongOperandCount mnemonic mnemonic.operandKinds.length tokens.length))

def assembleLine (line : List Char) : Except Refusal (Option Word) :=
  match SourceLine.read? line with
  | none => .error (.text (.malformed (String.ofList (trim line))))
  | some .blank => .ok none
  | some (.operation name tokens) => do
    let i ← instruction name tokens
    let word ← i.encode.mapError .encoding
    return some word

def assembleLines (number : Nat) : List (List Char) → Except (Nat × Refusal) (List Word)
  | [] => .ok []
  | line :: rest => do
    let word? ← (assembleLine line).mapError (number, ·)
    let words ← assembleLines (number + 1) rest
    return word?.toList ++ words

def assemble (source : String) : Except (Nat × Refusal) (List Word) :=
  assembleLines 1 (lines source.toList)

def forget : (kind : OperandKind) → kind.Value → Operand
  | .register, r => .register r
  | .imm12, imm => .imm12 imm
  | .imm20, imm => .imm20 imm

def forgetAll : (kinds : List OperandKind) → Operands kinds → List Operand
  | [], _ => []
  | kind :: kinds, (value, values) => forget kind value :: forgetAll kinds values

theorem build_forgetAll (mnemonic : Mnemonic) (values : Operands mnemonic.operandKinds) :
    build mnemonic (forgetAll mnemonic.operandKinds values) =
      .ok (mnemonic.instruction values) := by
  cases mnemonic <;> rfl

def ofTyped {α β : Type} (f : α → β) : Except AssemblyCause α → Except Refusal β
  | .ok value => .ok (f value)
  | .error cause => .error (.text cause)

theorem readRegister_eq (token : String) :
    readRegister token = ofTyped .register (OperandKind.readRegister token) := by
  cases known : token.toList with
  | nil => simp [readRegister, OperandKind.readRegister, known, ofTyped]
  | cons c digits =>
    by_cases letter : c = 'x'
    · subst letter
      cases value : numeral? digits with
      | none => simp [readRegister, OperandKind.readRegister, known, value, ofTyped]
      | some number =>
        -- The bound is checked twice, and the second check is the one that must not fail.
        by_cases bound : number < 32
        · simp [readRegister, OperandKind.readRegister, known, value, bound, ofTyped,
            Register.generalCount, Register.general, Except.mapError, Except.map]
        · simp [readRegister, OperandKind.readRegister, known, value, bound, ofTyped,
            Register.generalCount]
    · simp [readRegister, OperandKind.readRegister, known, letter, ofTyped]

theorem readImmediate_eq {width : Nat} (make : Imm width → Operand) (token : String) :
    readImmediate make token = ofTyped make (OperandKind.readImmediate width token) := by
  cases value : integer? token.toList with
  | none => simp [readImmediate, OperandKind.readImmediate, value, ofTyped]
  | some n =>
    cases known : Imm.ofInt? width n with
    | none => simp [readImmediate, OperandKind.readImmediate, value, known, ofTyped]
    | some imm => simp [readImmediate, OperandKind.readImmediate, value, known, ofTyped]

theorem read_eq (kind : OperandKind) (token : String) :
    read kind token = ofTyped (forget kind) (kind.read token) := by
  cases kind with
  | register => exact readRegister_eq token
  | imm12 | imm20 => exact readImmediate_eq _ token

theorem readAll_eq (kinds : List OperandKind) (tokens : List String)
    (same : tokens.length = kinds.length) :
    readAll kinds tokens = ofTyped (forgetAll kinds) (OperandKind.readAll kinds tokens same) := by
  induction kinds generalizing tokens with
  | nil => rfl
  | cons kind kinds ih =>
    cases tokens with
    | nil => cases same
    | cons token tokens =>
      rw [readAll, read_eq, ih tokens (Nat.succ.inj same), OperandKind.readAll]
      cases kind.read token with
      | error cause => rfl
      | ok value => cases OperandKind.readAll kinds tokens _ <;> rfl

theorem instruction_eq (name : String) (tokens : List String) :
    instruction name tokens = ofTyped id (Assembly.instruction name tokens) := by
  rw [instruction, Assembly.instruction]
  cases Mnemonic.ofToken? name with
  | none => rfl
  | some mnemonic =>
    by_cases same : tokens.length = mnemonic.operandKinds.length
    · simp only [same, ↓reduceIte, ↓reduceDIte, readAll_eq _ _ same]
      cases OperandKind.readAll mnemonic.operandKinds tokens same with
      | error cause => rfl
      | ok values => exact build_forgetAll mnemonic values
    · simp only [same, ↓reduceIte, ↓reduceDIte]
      rfl

theorem assembleLine_eq (line : List Char) :
    assembleLine line = ofTyped id (Assembly.assembleLine line) := by
  cases read : SourceLine.read? line with
  | none => simp only [assembleLine, Assembly.assembleLine, read, ofTyped]
  | some source =>
    cases source with
    | blank => simp only [assembleLine, Assembly.assembleLine, read, ofTyped, id_eq]
    | operation name tokens =>
      simp only [assembleLine, Assembly.assembleLine, read, instruction_eq]
      cases made : Assembly.instruction name tokens with
      | error cause => rfl
      | ok i =>
        have general := Assembly.general_of_instruction made
        obtain ⟨word, encoded, _⟩ := Instruction.encode_of_general general
        simp only [ofTyped, id_eq, bind, Except.bind, encoded, Except.mapError, pure, Except.pure]

theorem assembleLines_eq (number : Nat) (texts : List (List Char)) :
    assembleLines number texts =
      (Assembly.assembleLines number texts).mapError fun e => (e.line, .text e.cause) := by
  induction texts generalizing number with
  | nil => rfl
  | cons line texts ih =>
    rw [assembleLines, Assembly.assembleLines, assembleLine_eq, ih]
    cases Assembly.assembleLine line with
    | error cause => rfl
    | ok word? => cases Assembly.assembleLines (number + 1) texts <;> rfl

/-- No text leads to a mistake. It is refused for something that stands in it, or it is assembled
    into words that each decode to an instruction and are the word of that instruction. -/
theorem assemble_never_mistaken (source : String) :
    (∃ words, assemble source = .ok words ∧ WordMachine.assemble source = .ok words ∧
      ∀ word ∈ words, ∃ i, Instruction.decode word = .ok i ∧
        (∀ r ∈ i.registers, ∃ n : Fin 32, r = .x n) ∧ i.encode = .ok word) ∨
    ∃ line cause, assemble source = .error (line, .text cause) ∧
      WordMachine.assemble source = .error ⟨line, cause⟩ ∧
      ∀ error, cause ≠ .unencodable error := by
  rw [assemble, WordMachine.assemble, assembleLines_eq]
  cases assembled : Assembly.assembleLines 1 (lines source.toList) with
  | ok words =>
    refine .inl ⟨words, rfl, rfl, ?_⟩
    intro word member
    obtain ⟨program, made⟩ := Instruction.encoded_of_assembleLines assembled
    obtain ⟨i, encoded⟩ := Instruction.exists_encode_of_mem made member
    exact ⟨i, Instruction.decode_of_encode encoded,
      fun _ => Instruction.exists_x_of_encode encoded, encoded⟩
  | error e =>
    refine .inr ⟨e.line, e.cause, rfl, rfl, ?_⟩
    intro error mistaken
    have inText := Assembly.inText_of_assembleLines assembled
    rw [mistaken] at inText
    exact inText

theorem assemble_never_mistaken_shorthand_and_stray_register :
    (∃ i, Instruction.decode 0x0A107FF8 = .ok i ∧ (∀ r ∈ i.registers, ∃ n : Fin 32, r = .x n) ∧
      i.encode = .ok 0x0A107FF8) ∧
    ∃ line cause, assemble "nop\njal x32, 1" = .error (line, .text cause) ∧
      WordMachine.assemble "nop\njal x32, 1" = .error ⟨line, cause⟩ ∧
      ∀ error, cause ≠ .unencodable error := by
  constructor
  · rcases assemble_never_mistaken "set x1, -1" with ⟨words, made, _, canonical⟩ |
      ⟨line, cause, refused, _⟩
    · have known : assemble "set x1, -1" = .ok [0x0A107FF8] := rfl
      rw [known] at made
      cases made
      exact canonical 0x0A107FF8 (List.mem_singleton.mpr rfl)
    · cases refused
  · rcases assemble_never_mistaken "nop\njal x32, 1" with ⟨words, made, _⟩ | refused
    · cases made
    · exact refused

-- The checks are there: other operands than a text can name do not pass them.
example : build .jal [.imm20 ⟨1⟩, .register .zero] = .error (.signature .jal) := rfl
example : Register.general 32 = .error (.notGeneral 32) := rfl
example : (Instruction.jal .pc ⟨1⟩).encode = .error .programCounter := rfl

end Untyped

end WordMachine
