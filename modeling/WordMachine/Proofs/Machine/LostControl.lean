import WordMachine.Proofs.Machine.Run
import WordMachine.Proofs.Machine.Report

/-!
Machines whose program counter is no address of a word of their memory. Only a step moves the
program counter, a step has to read the word there first, and memory never grows: such a machine is
out of control for good.
-/

namespace WordMachine

namespace Machine

def LostControl (m : Machine) : Prop := m.pc.toNat % 4 ≠ 0 ∨ 4 * m.memory.size ≤ m.pc.toNat

def fetchFault (m : Machine) : Fault :=
  if m.pc.toNat % 4 ≠ 0 then .misaligned m.pc else .outOfBounds m.pc

structure SameControl (m n : Machine) : Prop where
  config : n.config = m.config
  registers : n.registers = m.registers
  size : n.memory.size = m.memory.size

namespace SameControl
variable {m n : Machine}

theorem lostControl (same : SameControl m n) (lost : m.LostControl) : n.LostControl := by
  rw [LostControl, pc_congr same.registers, same.size]
  exact lost

theorem fetchFault_eq (same : SameControl m n) : n.fetchFault = m.fetchFault := by
  rw [fetchFault, fetchFault, pc_congr same.registers]

theorem load (same : SameControl m n) (offset : Word) (words : List Word) :
    SameControl m (n.load offset words).1 :=
  ⟨same.config, same.registers, (Memory.size_load _ _ _).trans same.size⟩

end SameControl

namespace LostControl
variable {m : Machine}

theorem readWord_pc (lost : m.LostControl) : m.readWord m.pc = .error m.fetchFault := by
  rw [readWord, Memory.read_eq, fetchFault]
  split
  · rfl
  · rename_i aligned
    have outside : m.memory.words.size ≤ m.pc.toNat / 4 := by
      have beyond := lost.resolve_left aligned
      rw [Memory.size] at beyond
      omega
    rw [Array.getElem?_eq_none outside]

theorem step_eq (lost : m.LostControl) : m.step = (m, .error m.fetchFault) :=
  step_of_readWord_error lost.readWord_pc

theorem status_eq (lost : m.LostControl) : m.status = .running := by
  rw [status, lost.readWord_pc]

theorem run_eq (lost : m.LostControl) {budget : Nat} (positive : 1 ≤ budget) :
    m.run budget = (m, .error m.fetchFault) :=
  run_of_stopped lost.step_eq nofun positive

theorem sameControl_performAll (lost : m.LostControl) (commands : List Command) :
    SameControl m (m.performAll commands) := by
  apply performAll_keeps (P := SameControl m)
  · intro n same
    rw [(same.lostControl lost).step_eq]
    exact same
  · intro offset words _ n same
    exact same.load offset words
  · exact ⟨rfl, rfl, rfl⟩

theorem run_zero (lost : m.LostControl) : m.run 0 = (m, .ok .running) := by
  rw [run, runOn, lost.status_eq]

theorem run_stays (lost : m.LostControl) (budget : Nat) : (m.run budget).1 = m := by
  rcases Nat.eq_zero_or_pos budget with rfl | positive
  · rw [lost.run_zero]
  · rw [lost.run_eq positive]

end LostControl

/-- Nothing that is done with a machine brings lost control back. Steps and runs meet the same fault
    again and again, and what a load changes is nothing but words of memory. -/
theorem lost_control_is_permanent {m : Machine} (lost : m.LostControl) (commands : List Command) :
    let n := m.performAll commands
    n.registers = m.registers ∧ n.status = .running ∧
    n.step = (n, .error m.fetchFault) ∧
    (∀ budget, 1 ≤ budget → n.run budget = (n, .error m.fetchFault)) ∧
    n.run 0 = (n, .ok .running) ∧
    ∀ command, n.perform command ≠ n →
      ∃ offset words, command = .load offset words ∧ (n.load offset words).2 = .ok () := by
  intro n
  have same : SameControl m n := lost.sameControl_performAll commands
  have still : n.LostControl := same.lostControl lost
  rw [← same.fetchFault_eq]
  refine ⟨same.registers, still.status_eq, still.step_eq, fun _ => still.run_eq, still.run_zero, ?_⟩
  intro command changed
  cases command with
  | load offset words =>
    cases result : (n.load offset words).2 with
    | ok => exact ⟨offset, words, rfl, result⟩
    | error fault => exact absurd (load_of_error result) changed
  | step => exact absurd (congrArg Prod.fst still.step_eq) changed
  | run budget => exact absurd (still.run_stays budget) changed

def strayed : Machine := (((fresh { memoryWords := 2 }).load 0 [0x0E100002]).1.run 1).1

theorem lost_control_is_permanent_between_words :
    let n := strayed.performAll [.run 7, .load 4 [1, 2], .load 0 [9], .step]
    strayed.LostControl ∧ n.memory.words = #[9, 0] ∧ n.registers = strayed.registers ∧
    n.step = (n, .error (.misaligned 6)) ∧ n.run 100 = (n, .error (.misaligned 6)) ∧
    (fresh { memoryWords := 0 }).run 1 = (fresh { memoryWords := 0 }, .error (.outOfBounds 0)) := by
  intro n
  have lost : strayed.LostControl := Or.inl (by decide)
  have permanent := lost_control_is_permanent lost [.run 7, .load 4 [1, 2], .load 0 [9], .step]
  have empty : (fresh { memoryWords := 0 }).LostControl := Or.inr (Nat.le_refl 0)
  exact ⟨lost, rfl, permanent.1, permanent.2.2.1, permanent.2.2.2.1 100 (by decide),
    (lost_control_is_permanent empty []).2.2.2.1 1 (by decide)⟩

end Machine

end WordMachine
