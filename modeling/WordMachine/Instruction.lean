import WordMachine.Encoding.Layout

/-!
Instructions, one constructor for each operation, with their text as assembly and their words. An
instruction has a word exactly when its operands are general registers. Decoding looks at the funct
field only under the opcodes that it divides, so `mlt`, `lw` and `sw` accept any value there.
-/

namespace WordMachine

inductive Instruction where
  | halt
  | put (value base offset : Register)
  | get (value base offset : Register)
  | add (rd rs1 rs2 : Register)
  | mlt (rd rs1 rs2 : Register)
  | addi (rd rs1 : Register) (imm : Imm 12)
  | slti (rd rs1 : Register) (imm : Imm 12)
  | lw (rd base : Register) (offset : Imm 12)
  | sw (base : Register) (offset : Imm 12) (value : Register)
  | bne (rs1 rs2 : Register) (offset : Imm 12)
  | jal (rd : Register) (offset : Imm 20)
  | lui (rd : Register) (imm : Imm 20)
  deriving DecidableEq, Repr

namespace Instruction

def opcode : Instruction → Opcode
  | .halt => .hlt
  | .put .. => .put
  | .get .. => .get
  | .add .. => .op
  | .mlt .. => .mlt
  | .addi .. | .slti .. => .imm
  | .lw .. => .lw
  | .sw .. => .sw
  | .bne .. => .branch
  | .jal .. => .jal
  | .lui .. => .lui

def tokens : Instruction → List String
  | .halt => ["hlt"]
  | .put value base offset => ["put", value.text, base.text, offset.text]
  | .get value base offset => ["get", value.text, base.text, offset.text]
  | .add rd rs1 rs2 => ["add", rd.text, rs1.text, rs2.text]
  | .mlt rd rs1 rs2 => ["mlt", rd.text, rs1.text, rs2.text]
  | .addi rd rs1 imm => ["addi", rd.text, rs1.text, imm.text]
  | .slti rd rs1 imm => ["slti", rd.text, rs1.text, imm.text]
  | .lw rd base offset => ["lw", rd.text, base.text, offset.text]
  | .sw base offset value => ["sw", base.text, offset.text, value.text]
  | .bne rs1 rs2 offset => ["bne", rs1.text, rs2.text, offset.text]
  | .jal rd offset => ["jal", rd.text, offset.text]
  | .lui rd imm => ["lui", rd.text, imm.text]

def text (instruction : Instruction) : String := " ".intercalate instruction.tokens

def encode : Instruction → Except EncodingError Word
  | .halt => .ok Opcode.hlt.toWord
  | .put value base offset => LegacyFields.encode .put ⟨value, base, offset⟩
  | .get value base offset => LegacyFields.encode .get ⟨value, base, offset⟩
  | .add rd rs1 rs2 => RFields.encode .op ⟨rd, rs1, rs2, ⟨OpFunct.add.code⟩⟩
  | .mlt rd rs1 rs2 => RFields.encode .mlt ⟨rd, rs1, rs2, ⟨0⟩⟩
  | .addi rd rs1 imm => IFields.encode .imm ⟨rd, rs1, imm, ⟨ImmFunct.addi.code⟩⟩
  | .slti rd rs1 imm => IFields.encode .imm ⟨rd, rs1, imm, ⟨ImmFunct.slti.code⟩⟩
  | .lw rd base offset => IFields.encode .lw ⟨rd, base, offset, ⟨0⟩⟩
  | .sw base offset value => SBFields.encode .sw ⟨base, value, offset, ⟨0⟩⟩
  | .bne rs1 rs2 offset => SBFields.encode .branch ⟨rs1, rs2, offset, ⟨BranchFunct.bne.code⟩⟩
  | .jal rd offset => UJFields.encode .jal ⟨rd, offset⟩
  | .lui rd imm => UJFields.encode .lui ⟨rd, imm⟩

def ofOperands (opcode : Opcode) (word : Word) : Except DecodeError Instruction :=
  match opcode with
  | .hlt => .ok .halt
  | .put =>
    let f := LegacyFields.ofWord word
    .ok (.put f.value f.base f.offset)
  | .get =>
    let f := LegacyFields.ofWord word
    .ok (.get f.value f.base f.offset)
  | .op =>
    let f := RFields.ofWord word
    match OpFunct.ofCode? f.funct.code with
    | some .add => .ok (.add f.rd f.rs1 f.rs2)
    | none => .error (.unboundFunct .op f.funct.code)
  | .mlt =>
    let f := RFields.ofWord word
    .ok (.mlt f.rd f.rs1 f.rs2)
  | .imm =>
    let f := IFields.ofWord word
    match ImmFunct.ofCode? f.funct.code with
    | some .addi => .ok (.addi f.rd f.rs1 f.imm)
    | some .slti => .ok (.slti f.rd f.rs1 f.imm)
    | none => .error (.unboundFunct .imm f.funct.code)
  | .lw =>
    let f := IFields.ofWord word
    .ok (.lw f.rd f.rs1 f.imm)
  | .sw =>
    let f := SBFields.ofWord word
    .ok (.sw f.rs1 f.imm f.rs2)
  | .branch =>
    let f := SBFields.ofWord word
    match BranchFunct.ofCode? f.funct.code with
    | some .bne => .ok (.bne f.rs1 f.rs2 f.imm)
    | none => .error (.unboundFunct .branch f.funct.code)
  | .jal =>
    let f := UJFields.ofWord word
    .ok (.jal f.rd f.imm)
  | .lui =>
    let f := UJFields.ofWord word
    .ok (.lui f.rd f.imm)

def decode (word : Word) : Except DecodeError Instruction :=
  match Opcode.ofWord word with
  | .ok opcode => ofOperands opcode word
  | .error code => .error (.unknownOpcode code)

end Instruction

end WordMachine
