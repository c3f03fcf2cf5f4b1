import WordMachine.Encoding.Field

/-!
Memory, and the faults under which the machine cannot carry out what it was asked to. Memory is a
fixed number of words, addressed by byte. Only multiples of four are addresses of words, and
alignment is checked before bounds. An operation that changes memory returns it beside the result,
so that a refused operation can be seen to change nothing.
-/

namespace WordMachine

inductive Fault where
  | misaligned (address : Word)
  | outOfBounds (address : Word)
  | illegalOpcode (pc : Word) (code : Nat)
  | unboundFunct (pc : Word) (opcode : Opcode) (funct : Nat)
  deriving DecidableEq, Repr

namespace Fault

def ofDecodeError (pc : Word) : DecodeError → Fault
  | .unknownOpcode code => .illegalOpcode pc code
  | .unboundFunct opcode funct => .unboundFunct pc opcode funct

def message : Fault → String
  | .misaligned address => s!"unaligned access to address {hexadecimal 1 address}"
  | .outOfBounds address => s!"address {hexadecimal 1 address} is outside of memory"
  | .illegalOpcode pc code =>
    s!"{(DecodeError.unknownOpcode code).message} (pc = {hexadecimal 1 pc})"
  | .unboundFunct pc opcode funct =>
    s!"{(DecodeError.unboundFunct opcode funct).message} (pc = {hexadecimal 1 pc})"

end Fault

structure Memory where
  words : Array Word
  deriving DecidableEq, Repr

namespace Memory

def zeros (count : Nat) : Memory := ⟨Array.replicate count 0⟩

def size (m : Memory) : Nat := m.words.size

def index (m : Memory) (address : Word) : Except Fault (Fin m.words.size) :=
  if address.toNat % wordBytes ≠ 0 then .error (.misaligned address)
  else if bound : address.toNat / wordBytes < m.words.size then
    .ok ⟨address.toNat / wordBytes, bound⟩
  else .error (.outOfBounds address)

def read (m : Memory) (address : Word) : Except Fault Word :=
  match m.index address with
  | .ok i => .ok m.words[i]
  | .error fault => .error fault

def write (m : Memory) (address value : Word) : Memory × Except Fault Unit :=
  match m.index address with
  | .ok i => (⟨m.words.set i value⟩, .ok ())
  | .error fault => (m, .error fault)

def overwrite (words : Array Word) (start : Nat) : List Word → Array Word
  | [] => words
  | value :: data => overwrite (words.setIfInBounds start value) (start + 1) data

/-- Writes all of `data` from `address` on, or nothing. Where it does not fit, the fault names the
    first address outside of memory, at or after `address`, cut to a word. -/
def load (m : Memory) (address : Word) (data : List Word) : Memory × Except Fault Unit :=
  if address.toNat % wordBytes ≠ 0 then (m, .error (.misaligned address))
  else
    let start := address.toNat / wordBytes
    if start + data.length ≤ m.words.size then (⟨overwrite m.words start data⟩, .ok ())
    else (m, .error (.outOfBounds (BitVec.ofNat 32 (max start m.words.size * wordBytes))))

theorem size_zeros (count : Nat) : (zeros count).size = count := by
  simp [zeros, size]

theorem size_write (m : Memory) (address value : Word) :
    (m.write address value).1.size = m.size := by
  simp only [write]
  split <;> simp [size]

theorem size_overwrite (words : Array Word) (start : Nat) (data : List Word) :
    (overwrite words start data).size = words.size := by
  induction data generalizing words start with
  | nil => rfl
  | cons value data ih => rw [overwrite, ih, Array.size_setIfInBounds]

theorem size_load (m : Memory) (address : Word) (data : List Word) :
    (m.load address data).1.size = m.size := by
  simp only [load]
  split
  · rfl
  · split
    · exact size_overwrite m.words _ data
    · rfl

end Memory

end WordMachine
