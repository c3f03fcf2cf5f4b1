import WordMachine.Word

/-!
Opcodes, the shapes in which their operands are laid out, and the operations that share an opcode
and are told apart by the funct field.
-/

namespace WordMachine

inductive Shape where
  | halt
  | r
  | i
  | sb
  | uj
  | legacy
  deriving DecidableEq, Repr

def Shape.text : Shape → String
  | .halt => "Halt"
  | .r => "R"
  | .i => "I"
  | .sb => "S/B"
  | .uj => "U/J"
  | .legacy => "Legacy"

/-- Under `op`, `imm` and `branch` the funct field selects the operation. -/
inductive Opcode where
  | hlt
  | put
  | get
  | op
  | mlt
  | imm
  | branch
  | jal
  | lui
  | lw
  | sw
  deriving DecidableEq, Repr

namespace Opcode

def bits : Nat := 7

def code : Opcode → Nat
  | .hlt => 0
  | .put => 1
  | .get => 2
  | .op => 3
  | .mlt => 4
  | .imm => 5
  | .branch => 6
  | .jal => 7
  | .lui => 8
  | .lw => 9
  | .sw => 10

/-- No operation is bound to this code or to any above it. -/
def sentinel : Nat := 11

def ofCode? : Nat → Option Opcode
  | 0 => some .hlt
  | 1 => some .put
  | 2 => some .get
  | 3 => some .op
  | 4 => some .mlt
  | 5 => some .imm
  | 6 => some .branch
  | 7 => some .jal
  | 8 => some .lui
  | 9 => some .lw
  | 10 => some .sw
  | _ => none

def text : Opcode → String
  | .hlt => "hlt"
  | .put => "put"
  | .get => "get"
  | .op => "op"
  | .mlt => "mlt"
  | .imm => "imm"
  | .branch => "branch"
  | .jal => "jal"
  | .lui => "lui"
  | .lw => "lw"
  | .sw => "sw"

def shape : Opcode → Shape
  | .hlt => .halt
  | .put | .get => .legacy
  | .op | .mlt => .r
  | .imm | .lw => .i
  | .branch | .sw => .sb
  | .jal | .lui => .uj

def toWord (opcode : Opcode) : Word := BitVec.ofNat 32 opcode.code <<< 25

def codeOf (word : Word) : Nat := (word >>> 25).toNat

/-- The opcode of a word, or its bare code where nothing is bound to it. -/
def ofWord (word : Word) : Except Nat Opcode :=
  match ofCode? (codeOf word) with
  | some opcode => .ok opcode
  | none => .error (codeOf word)

theorem ofCode?_code (opcode : Opcode) : ofCode? opcode.code = some opcode := by
  cases opcode <;> rfl

theorem code_lt_sentinel (opcode : Opcode) : opcode.code < sentinel := by
  cases opcode <;> decide

theorem code_ofCode? {n : Nat} {opcode : Opcode} (found : ofCode? n = some opcode) :
    opcode.code = n := by
  unfold ofCode? at found
  split at found <;> cases found <;> rfl

theorem ofCode?_eq_none_iff {n : Nat} : ofCode? n = none ↔ sentinel ≤ n := by
  have bound : ∀ k : Fin 11, ofCode? k ≠ none := by decide
  constructor
  · intro missing
    exact Nat.le_of_not_lt fun below => bound ⟨n, below⟩ missing
  · intro above
    cases found : ofCode? n with
    | none => rfl
    | some opcode =>
      have below := code_lt_sentinel opcode
      rw [code_ofCode? found] at below
      omega

end Opcode

inductive OpFunct where
  | add
  deriving DecidableEq, Repr

inductive ImmFunct where
  | addi
  | slti
  deriving DecidableEq, Repr

inductive BranchFunct where
  | bne
  deriving DecidableEq, Repr

def OpFunct.code : OpFunct → Nat
  | .add => 0

def OpFunct.ofCode? : Nat → Option OpFunct
  | 0 => some .add
  | _ => none

def OpFunct.text : OpFunct → String
  | .add => "add"

def ImmFunct.code : ImmFunct → Nat
  | .addi => 0
  | .slti => 1

def ImmFunct.ofCode? : Nat → Option ImmFunct
  | 0 => some .addi
  | 1 => some .slti
  | _ => none

def ImmFunct.text : ImmFunct → String
  | .addi => "addi"
  | .slti => "slti"

def BranchFunct.code : BranchFunct → Nat
  | .bne => 0

def BranchFunct.ofCode? : Nat → Option BranchFunct
  | 0 => some .bne
  | _ => none

def BranchFunct.text : BranchFunct → String
  | .bne => "bne"

end WordMachine
