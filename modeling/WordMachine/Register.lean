import WordMachine.Word

/-!
Registers: the general registers `x0` to `x31` and the program counter. In the register file the
program counter takes the slot after the general registers.
-/

namespace WordMachine

inductive Register where
  | x (number : Fin 32)
  | pc
  deriving DecidableEq, Repr

namespace Register

def generalCount : Nat := 32

def count : Nat := generalCount + 1

def zero : Register := .x 0

def slot : Register → Nat
  | .x number => number
  | .pc => generalCount

def ofSlot? (slot : Nat) : Option Register :=
  if bound : slot < 32 then some (.x ⟨slot, bound⟩)
  else if slot = generalCount then some .pc else none

def all : List Register := (List.finRange 32).map .x ++ [.pc]

def text : Register → String
  | .x number => "x" ++ decimal (number : Nat)
  | .pc => "pc"

theorem ofSlot?_slot (r : Register) : ofSlot? r.slot = some r := by
  cases r with
  | x number => simp [slot, ofSlot?]
  | pc => rfl

theorem slot_ofSlot? {n : Nat} {r : Register} (found : ofSlot? n = some r) : r.slot = n := by
  simp only [ofSlot?] at found
  split at found
  · cases found; rfl
  · split at found
    · cases found; simp [slot, *]
    · contradiction

theorem mem_all (r : Register) : r ∈ all := by
  cases r <;> simp [all, List.mem_finRange]

end Register

structure RegisterFile where
  general : Vector Word 32
  pc : Word
  deriving DecidableEq, Repr

namespace RegisterFile

def zeros : RegisterFile := ⟨Vector.replicate 32 0, 0⟩

def stored (file : RegisterFile) : Register → Word
  | .x number => getElem file.general number.val number.isLt
  | .pc => file.pc

/-- The register as instructions see it: `x0` is zero whatever its slot holds. -/
def read (file : RegisterFile) (r : Register) : Word :=
  if r = .zero then 0 else file.stored r

def write (file : RegisterFile) (r : Register) (value : Word) : RegisterFile :=
  match r with
  | .x number =>
    if number.val = 0 then file
    else { file with general := file.general.set number.val value number.isLt }
  | .pc => { file with pc := value }

def slots (file : RegisterFile) : List Word := Register.all.map file.stored

theorem stored_zeros (r : Register) : zeros.stored r = 0 := by
  cases r <;> simp [zeros, stored]

theorem stored_write (file : RegisterFile) (r s : Register) (value : Word) :
    (file.write r value).stored s = if r = s ∧ r ≠ .zero then value else file.stored s := by
  cases r with
  | pc => cases s <;> simp [write, stored, Register.zero]
  | x n =>
    by_cases zero : n.val = 0
    · simp [write, stored, Register.zero, zero, Fin.ext_iff]
    · cases s with
      | pc => simp [write, stored, zero]
      | x k =>
        simp [write, stored, Register.zero, zero, Vector.getElem_set, Fin.ext_iff]

theorem read_write (file : RegisterFile) (r s : Register) (value : Word) :
    (file.write r value).read s = if r = s ∧ r ≠ .zero then value else file.read s := by
  simp only [read, stored_write]
  by_cases zero : s = .zero
  · subst zero
    simp only [↓reduceIte]
    split
    · rename_i both
      exact absurd both.1 both.2
    · rfl
  · simp only [if_neg zero]

end RegisterFile

end WordMachine
