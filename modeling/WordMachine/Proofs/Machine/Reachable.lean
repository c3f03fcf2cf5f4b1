import WordMachine.Proofs.Machine.Run
import WordMachine.Proofs.Machine.Simulation

/-!
What is true of a machine whatever was done with it since it was fresh. The slot of `x0` is never
written to, so it makes no difference that reading `x0` does not look at it.
-/

namespace WordMachine

theorem RegisterFile.length_slots (file : RegisterFile) : file.slots.length = Register.count := by
  simp [slots, Register.all, Register.count, Register.generalCount]

theorem RegisterFile.getElem?_slots (file : RegisterFile) (r : Register) :
    file.slots[r.slot]? = some (file.stored r) := by
  have place : Register.all[r.slot]? = some r := by
    cases r with
    | x n =>
      have inside : n.val < ((List.finRange 32).map Register.x).length := by simp
      rw [Register.all, Register.slot, List.getElem?_append_left inside]
      simp
    | pc => rfl
  rw [slots, List.getElem?_map, place, Option.map_some]

namespace Machine
open Instruction (decode)

theorem status_eq_halted_iff (m : Machine) : m.status = .halted ↔ m.step.2 = .ok .halted := by
  rw [status, step]
  cases m.readWord m.pc with
  | error fault => simp
  | ok word =>
    cases known : Opcode.ofWord word with
    | error code => simp [known]
    | ok opcode =>
      cases opcode with
      | hlt => simp [known]
      | _ =>
        simp only [known]
        split <;> simp

theorem StepsTo.stored_zero {m next : Machine} {result : Except Fault Status}
    (stepped : m.StepsTo next result) :
    next.registers.stored .zero = m.registers.stored .zero := by
  cases stepped with
  | performed _ _ _ _ becomes =>
    have general := becomes.general 0
    simp only [ne_eq, not_true_eq_false, and_false, if_false] at general
    split at general <;> exact general
  | functIgnored => rfl
  | unread | unknownOpcode | functRefused | halted | faulted => rfl

theorem StepsTo.size_eq {m next : Machine} {result : Except Fault Status}
    (stepped : m.StepsTo next result) : next.memory.size = m.memory.size := by
  cases stepped with
  | performed _ _ _ effect becomes =>
    rw [becomes.memory_eq (Instruction.storesInside_of_effect effect)]
    split
    · exact Memory.size_write _ _ _
    · rfl
  | functIgnored => rfl
  | unread | unknownOpcode | functRefused | halted | faulted => rfl

/-- What a machine of this configuration is like however it came about. -/
structure WellFormed (config : Config) (m : Machine) : Prop where
  settings : m.config = config
  zero : m.registers.stored .zero = 0
  size : m.memory.size = config.memoryWords

namespace WellFormed
variable {config : Config} {m : Machine}

theorem fresh (config : Config) : WellFormed config (fresh config) :=
  ⟨rfl, RegisterFile.stored_zeros _, Memory.size_zeros _⟩

theorem step (wellFormed : WellFormed config m) : WellFormed config m.step.1 := by
  have stepped := m.stepsTo_step
  exact ⟨stepped.config_eq.trans wellFormed.settings, stepped.stored_zero.trans wellFormed.zero,
    stepped.size_eq.trans wellFormed.size⟩

theorem load (wellFormed : WellFormed config m) (offset : Word) (words : List Word) :
    WellFormed config (m.load offset words).1 :=
  ⟨wellFormed.settings, wellFormed.zero, (Memory.size_load _ _ _).trans wellFormed.size⟩

theorem performAll (wellFormed : WellFormed config m) (commands : List Command) :
    WellFormed config (m.performAll commands) :=
  performAll_keeps (P := WellFormed config) (fun _ formed => formed.step)
    (fun offset words _ _ formed => formed.load offset words) wellFormed

end WellFormed

/-- Loads, steps and runs, with whatever arguments and results, leave a machine on which the exposed
    slots are the registers, memory has the size that was asked for and the status is right. -/
theorem commands_keep_machine_sound (config : Config) (commands : List Command) :
    let m := (fresh config).performAll commands
    m.registers.slots.length = Register.count ∧ m.registers.slots[0]? = some 0 ∧
    (∀ r, m.registers.slots[r.slot]? = some (m.register r)) ∧
    m.memory.words.size = m.config.memoryWords ∧ m.config = config ∧
    (m.status = .halted ↔ m.step.2 = .ok .halted) := by
  intro m
  have wellFormed : WellFormed config m := (WellFormed.fresh config).performAll commands
  refine ⟨m.registers.length_slots, ?_, ?_, ?_, wellFormed.settings, m.status_eq_halted_iff⟩
  · rw [← wellFormed.zero]
    exact m.registers.getElem?_slots .zero
  · intro r
    rw [register_eq_stored wellFormed.zero]
    exact m.registers.getElem?_slots r
  · rw [wellFormed.settings]
    exact wellFormed.size

end Machine

end WordMachine
