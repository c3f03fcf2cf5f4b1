import WordMachine.Proofs.Machine.Change
import WordMachine.Proofs.Machine.Run

/-!
Two machines side by side. Where their registers, the words that they fetch and the words that they
touch are the same, both take the same step; a relation that such steps keep, and that accounts for
the faults after which they part, is then kept by runs of any length.
-/

namespace WordMachine

namespace Machine
open Instruction (decode)

def MoveAlike (m next n other : Machine) : Prop :=
  next = m ∧ other = n ∨ ∃ e, m.StoresInside e ∧ m.Becomes next e ∧ n.Becomes other e

theorem StepsTo.alongside {m n next : Machine} {result : Except Fault Status}
    (stepped : m.StepsTo next result) (registers : n.registers = m.registers)
    (fetch : n.readWord m.pc = m.readWord m.pc)
    (policies : ∀ word opcode funct, m.readWord m.pc = .ok word →
      decode word = .error (.unboundFunct opcode funct) →
      n.config.unboundFunct = m.config.unboundFunct)
    (effects : ∀ word i, m.readWord m.pc = .ok word → decode word = .ok i →
      i.effect n.seen = i.effect m.seen) :
    n.step.2 = result ∧ MoveAlike m next n n.step.1 := by
  have pc := pc_congr registers
  have fetch : n.readWord n.pc = m.readWord m.pc := by rw [pc, fetch]
  -- Each way for the first machine to end its step is the way in which the second one ends it.
  cases stepped with
  | unread unread =>
    rw [step_of_readWord_error (fetch.trans unread)]
    exact ⟨rfl, Or.inl ⟨rfl, rfl⟩⟩
  | unknownOpcode fetched refused =>
    rw [step_of_unknownOpcode (fetch.trans fetched) refused, pc]
    exact ⟨rfl, Or.inl ⟨rfl, rfl⟩⟩
  | functIgnored fetched refused policy =>
    have ignores := (policies _ _ _ fetched refused).trans policy
    have following : n.seen.following = m.seen.following :=
      Contents.following_congr (register_seen_congr registers)
    have moves := n.becomes_advance
    rw [following] at moves
    rw [step_of_unboundFunct (fetch.trans fetched) refused, ignores]
    exact ⟨rfl, Or.inr ⟨_, m.storesInside_of_none rfl, m.becomes_advance, moves⟩⟩
  | functRefused fetched refused policy =>
    have faults := (policies _ _ _ fetched refused).trans policy
    rw [step_of_unboundFunct (fetch.trans fetched) refused, faults, pc]
    exact ⟨rfl, Or.inl ⟨rfl, rfl⟩⟩
  | halted fetched decoded =>
    rw [step_of_halt (fetch.trans fetched) decoded]
    exact ⟨rfl, Or.inl ⟨rfl, rfl⟩⟩
  | faulted fetched decoded running effect =>
    have alike := step_of_instruction (fetch.trans fetched) decoded running
    rw [effects _ _ fetched decoded, effect] at alike
    rw [alike]
    exact ⟨rfl, Or.inl ⟨rfl, rfl⟩⟩
  | performed fetched decoded running effect becomes =>
    have alike := step_of_instruction (fetch.trans fetched) decoded running
    rw [effects _ _ fetched decoded, effect] at alike
    obtain ⟨other, stepped, alike⟩ := alike
    rw [stepped]
    exact ⟨rfl, Or.inr ⟨_, Instruction.storesInside_of_effect effect, becomes, alike⟩⟩

/-- The second machine does what the first one does, unless the first one faults in such a way. -/
def StepsAlong (related : Machine → Machine → Prop) (apart : Fault → Prop) : Prop :=
  ∀ m n, related m n → (∀ fault, m.step.2 = .error fault → ¬ apart fault) →
    n.step.2 = m.step.2 ∧ related m.step.1 n.step.1

section
variable {related : Machine → Machine → Prop} {apart : Fault → Prop}

theorem RunsTo.along (along : StepsAlong related apart) {m final : Machine} {count : Nat}
    (reached : m.RunsTo count final) {n : Machine} (start : related m n) :
    ∃ other, n.RunsTo count other ∧ related final other := by
  induction reached generalizing n with
  | refl m => exact ⟨n, .refl n, start⟩
  | step stepped rest ih =>
    have together := along _ n start
    rw [stepped] at together
    obtain ⟨running, next⟩ := together nofun
    obtain ⟨other, reached, last⟩ := ih next
    exact ⟨other, .step (Prod.ext rfl running) reached, last⟩

theorem run_along (along : StepsAlong related apart) {m n : Machine} (start : related m n)
    (budget : Nat) (statuses : budget = 0 → n.status = m.status)
    (together : ∀ fault, (m.run budget).2 = .error fault → ¬ apart fault) :
    (n.run budget).2 = (m.run budget).2 ∧ related (m.run budget).1 (n.run budget).1 := by
  rcases runsTo_or_stops budget m with ⟨final, reached⟩ | ⟨count, less, final, result, reached,
    stepped, stopped⟩
  · obtain ⟨other, alike, last⟩ := reached.along along start
    rw [run_of_runsTo_all reached, run_of_runsTo_all alike]
    refine ⟨?_, last⟩
    by_cases none : budget = 0
    · simp only [none, if_true, statuses none]
    · simp only [none, if_false]
  · obtain ⟨other, alike, last⟩ := reached.along along start
    rw [run_of_runsTo_stopped reached stepped stopped less] at together ⊢
    have ends := along final other last
    rw [stepped] at ends
    obtain ⟨same, _⟩ := ends together
    -- It stopped the first machine, so it leaves the second one where it is as well.
    have stays : other.step = (other, result) := by
      rw [step_of_stopped (by rw [same]; exact stopped), same]
    rw [run_of_runsTo_stopped alike stays stopped less]
    exact ⟨rfl, last⟩

end

end Machine

end WordMachine
