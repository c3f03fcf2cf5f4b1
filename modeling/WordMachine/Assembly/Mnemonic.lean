import WordMachine.Instruction

/-!
The names of operations in assembly, the operands that each takes, and the instruction that it
makes of them. `set` and `nop` are shorthands for `addi`.
-/

namespace WordMachine

inductive OperandKind where
  | register
  | imm12
  | imm20
  deriving DecidableEq, Repr

def OperandKind.text : OperandKind → String
  | .register => "register"
  | .imm12 => "12-bit immediate"
  | .imm20 => "20-bit immediate"

abbrev OperandKind.Value : OperandKind → Type
  | .register => Register
  | .imm12 => Imm 12
  | .imm20 => Imm 20

abbrev Operands : List OperandKind → Type
  | [] => Unit
  | kind :: kinds => kind.Value × Operands kinds

inductive Mnemonic where
  | hlt
  | put
  | get
  | add
  | mlt
  | addi
  | slti
  | lw
  | sw
  | bne
  | jal
  | lui
  | set
  | nop
  deriving DecidableEq, Repr

namespace Mnemonic

def all : List Mnemonic :=
  [.hlt, .put, .get, .add, .mlt, .addi, .slti, .lw, .sw, .bne, .jal, .lui, .set, .nop]

def text : Mnemonic → String
  | .hlt => "hlt"
  | .put => "put"
  | .get => "get"
  | .add => "add"
  | .mlt => "mlt"
  | .addi => "addi"
  | .slti => "slti"
  | .lw => "lw"
  | .sw => "sw"
  | .bne => "bne"
  | .jal => "jal"
  | .lui => "lui"
  | .set => "set"
  | .nop => "nop"

/-- Every way to write a mnemonic in small letters: its text, and `halt` besides. -/
def spellings : List (List Char × Mnemonic) :=
  ("halt".toList, .hlt) :: all.map fun mnemonic => (mnemonic.text.toList, mnemonic)

/-- The mnemonic that a token spells, whatever the case of its ASCII letters. -/
def ofToken? (token : String) : Option Mnemonic :=
  spellings.lookup (token.toList.map Char.toLower)

abbrev operandKinds : Mnemonic → List OperandKind
  | .hlt | .nop => []
  | .put | .get | .add | .mlt => [.register, .register, .register]
  | .addi | .slti | .lw | .bne => [.register, .register, .imm12]
  | .sw => [.register, .imm12, .register]
  | .jal | .lui => [.register, .imm20]
  | .set => [.register, .imm12]

def instruction : (mnemonic : Mnemonic) → Operands mnemonic.operandKinds → Instruction
  | .hlt, _ => .halt
  | .put, (value, base, offset, _) => .put value base offset
  | .get, (value, base, offset, _) => .get value base offset
  | .add, (rd, rs1, rs2, _) => .add rd rs1 rs2
  | .mlt, (rd, rs1, rs2, _) => .mlt rd rs1 rs2
  | .addi, (rd, rs1, imm, _) => .addi rd rs1 imm
  | .slti, (rd, rs1, imm, _) => .slti rd rs1 imm
  | .lw, (rd, base, offset, _) => .lw rd base offset
  | .sw, (base, offset, value, _) => .sw base offset value
  | .bne, (rs1, rs2, offset, _) => .bne rs1 rs2 offset
  | .jal, (rd, offset, _) => .jal rd offset
  | .lui, (rd, imm, _) => .lui rd imm
  | .set, (rd, imm, _) => .addi rd .zero imm
  | .nop, _ => .addi .zero .zero ⟨0⟩

end Mnemonic

end WordMachine
