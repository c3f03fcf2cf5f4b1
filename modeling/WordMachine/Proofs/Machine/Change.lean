import WordMachine.Proofs.Machine.Outcome

/-!
Effects turned back into machines. What an effect says of the machine after it leaves no room for
two: the registers and the memory follow from the ones before. Every step makes such a change or
none at all.
-/

namespace WordMachine

theorem RegisterFile.eq_of_stored {a b : RegisterFile} (pc : a.pc = b.pc)
    (general : ∀ n : Fin 32, a.stored (.x n) = b.stored (.x n)) : a = b := by
  obtain ⟨first, _⟩ := a
  obtain ⟨second, _⟩ := b
  cases pc
  exact congrArg (RegisterFile.mk · _) (Vector.ext fun i inside => general ⟨i, inside⟩)

namespace Machine
open Instruction (decode)

def StoresInside (m : Machine) (e : Effect) : Prop :=
  ∀ address value, e.store = some (address, value) → ∃ old, m.readWord address = .ok old

theorem storesInside_of_none (m : Machine) {e : Effect} (none : e.store = none) :
    m.StoresInside e := by
  intro address value store
  rw [none] at store
  cases store

theorem Becomes.registers_eq {m n next other : Machine} {e : Effect}
    (same : n.registers = m.registers) (first : m.Becomes next e) (second : n.Becomes other e) :
    other.registers = next.registers := by
  apply RegisterFile.eq_of_stored
  · exact second.pc.trans first.pc.symm
  · intro k
    rw [second.general, first.general, same]

theorem Becomes.memory_eq {m next : Machine} {e : Effect} (becomes : m.Becomes next e)
    (inside : m.StoresInside e) :
    next.memory =
      match e.store with
      | some (address, value) => (m.memory.write address value).1
      | none => m.memory := by
  have words := becomes.words
  cases store : e.store with
  | none =>
    rw [store] at words
    exact Memory.eq_of_getElem? words
  | some place =>
    obtain ⟨address, value⟩ := place
    obtain ⟨old, known⟩ := inside address value store
    obtain ⟨after, written, held⟩ := Memory.write_of_read_ok known value
    rw [store] at words
    simp only [written]
    exact Memory.eq_of_getElem? fun k => (words k).trans (held k).symm

theorem register_seen_congr {m n : Machine} (registers : n.registers = m.registers) :
    n.seen.register = m.seen.register := by
  funext r
  rw [register_seen, register_seen, register, register, registers]

end Machine

namespace Contents
variable {c d : Contents} {rd : Register} {address : Int} {value : Word} {e : Effect}

theorem loadEffect_eq_error_iff {fault : Fault} :
    c.loadEffect rd address = .error fault ↔ c.word (BitVec.ofInt 32 address) = .error fault := by
  rw [loadEffect]
  cases c.word (BitVec.ofInt 32 address) with
  | ok word => simp [resultEffect]
  | error other => simp

theorem storeEffect_eq_error_iff {fault : Fault} :
    c.storeEffect address value = .error fault ↔
      c.word (BitVec.ofInt 32 address) = .error fault := by
  rw [storeEffect]
  cases c.word (BitVec.ofInt 32 address) with
  | ok word => simp
  | error other => simp

theorem store_of_loadEffect (loaded : c.loadEffect rd address = .ok e) : e.store = none := by
  rw [loadEffect] at loaded
  split at loaded
  · cases loaded
    rfl
  · cases loaded

theorem store_of_storeEffect (stored : c.storeEffect address value = .ok e) :
    ∃ place value old, e.store = some (place, value) ∧ c.word place = .ok old := by
  rw [storeEffect] at stored
  split at stored
  · rename_i old known
    cases stored
    exact ⟨_, value, old, rfl, known⟩
  · cases stored

section
variable (registers : d.register = c.register)
include registers

theorem unsigned_congr (r : Register) : d.unsigned r = c.unsigned r := by
  rw [unsigned, unsigned, registers]

theorem following_congr : d.following = c.following := by
  rw [following, following, unsigned_congr registers]

theorem resultEffect_congr (rd : Register) (value : Int) :
    d.resultEffect rd value = c.resultEffect rd value := by
  rw [resultEffect, resultEffect, following_congr registers]

theorem loadEffect_congr (rd : Register)
    (same : d.word (BitVec.ofInt 32 address) = c.word (BitVec.ofInt 32 address)) :
    d.loadEffect rd address = c.loadEffect rd address := by
  simp only [loadEffect, same, resultEffect_congr registers]

theorem storeEffect_congr (value : Word)
    (same : d.word (BitVec.ofInt 32 address) = c.word (BitVec.ofInt 32 address)) :
    d.storeEffect address value = c.storeEffect address value := by
  simp only [storeEffect, same, following_congr registers]

end

end Contents

namespace Instruction
open Contents Machine
variable {c d : Contents} {i : Instruction}

def touched (c : Contents) : Instruction → Option Word
  | .put _ base offset | .get _ base offset =>
    some (BitVec.ofInt 32 (c.unsigned base + c.unsigned offset))
  | .lw _ base offset | .sw base offset _ =>
    some (BitVec.ofInt 32 (c.unsigned base + offset.value))
  | _ => none

/-- All that can go wrong with an instruction is the address that it touches. -/
theorem effect_eq_error_iff {fault : Fault} :
    i.effect c = .error fault ↔
      ∃ address, i.touched c = some address ∧ c.word address = .error fault := by
  cases i with
  | put | sw => simp [effect, touched, storeEffect_eq_error_iff]
  | get | lw => simp [effect, touched, loadEffect_eq_error_iff]
  | halt | add | mlt | addi | slti | bne | jal | lui => simp [effect, touched, resultEffect]

/-- Registers and the word at the address that it touches are all that an instruction reads. -/
theorem effect_congr (registers : d.register = c.register)
    (reads : ∀ address, i.touched c = some address → d.word address = c.word address) :
    i.effect d = i.effect c := by
  cases i with
  | put | sw =>
    simp only [effect, unsigned_congr registers, registers]
    exact storeEffect_congr registers _ (reads _ rfl)
  | get | lw =>
    simp only [effect, unsigned_congr registers]
    exact loadEffect_congr registers _ (reads _ rfl)
  | halt | add | mlt | addi | slti | bne | jal | lui =>
    simp only [effect, resultEffect_congr registers, following_congr registers,
      unsigned_congr registers, registers]

theorem store_of_effect {e : Effect} (effect : i.effect c = .ok e) :
    e.store = none ∨
      (i.opcode = .put ∨ i.opcode = .sw) ∧
        ∃ address value old, e.store = some (address, value) ∧ c.word address = .ok old := by
  cases i with
  | put => exact Or.inr ⟨Or.inl rfl, store_of_storeEffect effect⟩
  | sw => exact Or.inr ⟨Or.inr rfl, store_of_storeEffect effect⟩
  | get | lw => exact Or.inl (store_of_loadEffect effect)
  | halt | add | mlt | addi | slti | bne | jal | lui =>
    cases effect
    exact Or.inl rfl

theorem storesInside_of_effect {m : Machine} {e : Effect} (effect : i.effect m.seen = .ok e) :
    m.StoresInside e := by
  intro address value store
  rcases store_of_effect effect with none | ⟨_, place, word, old, known, read⟩
  · rw [none] at store
    cases store
  · rw [known] at store
    cases store
    exact ⟨old, read⟩

end Instruction

end WordMachine
