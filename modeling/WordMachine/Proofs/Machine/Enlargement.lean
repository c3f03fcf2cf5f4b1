import WordMachine.Proofs.Machine.Report
import WordMachine.Proofs.Machine.Simulation

/-!
A machine and one with more memory. The words behind the last one of the smaller machine cannot be
seen, let alone changed, by a run of it that stays in bounds, wherever in it its program is.
-/

namespace WordMachine

namespace Machine

/-- The larger machine is the smaller one with words added behind its memory. How many words their
    settings announce is left open. -/
structure Enlarges (extra : Array Word) (small large : Machine) : Prop where
  policy : large.config.unboundFunct = small.config.unboundFunct
  registers : large.registers = small.registers
  words : large.memory.words = small.memory.words ++ extra

def IsOutOfBounds : Fault → Prop
  | .outOfBounds _ => True
  | _ => False

namespace Enlarges
variable {extra : Array Word} {small large : Machine}

theorem memory_eq (enlarges : Enlarges extra small large) :
    large.memory = ⟨small.memory.words ++ extra⟩ := congrArg Memory.mk enlarges.words

theorem readWord_eq (enlarges : Enlarges extra small large) {address : Word}
    (inside : small.readWord address ≠ .error (.outOfBounds address)) :
    large.readWord address = small.readWord address := by
  rw [readWord, readWord, enlarges.memory_eq]
  exact (small.memory.read_append extra address).resolve_right inside

theorem of_moveAlike (enlarges : Enlarges extra small large) {next other : Machine}
    (alike : MoveAlike small next large other) : Enlarges extra next other := by
  rcases alike with ⟨rfl, rfl⟩ | ⟨e, inside, first, second⟩
  · exact enlarges
  · have alsoInside : large.StoresInside e := by
      intro address value store
      obtain ⟨old, known⟩ := inside address value store
      have reads : large.readWord address = small.readWord address :=
        enlarges.readWord_eq (by rw [known]; nofun)
      exact ⟨old, reads.trans known⟩
    refine ⟨?_, first.registers_eq enlarges.registers second, ?_⟩
    · rw [first.config, second.config, enlarges.policy]
    · have before := first.memory_eq inside
      have after := second.memory_eq alsoInside
      rw [after, before]
      cases store : e.store with
      | none => exact enlarges.words
      | some place =>
        obtain ⟨address, value⟩ := place
        obtain ⟨old, known⟩ := inside address value store
        rw [enlarges.memory_eq]
        exact congrArg Memory.words (Memory.write_append known extra value)

end Enlarges

theorem stepsAlong_enlarges (extra : Array Word) : StepsAlong (Enlarges extra) IsOutOfBounds := by
  intro small large enlarges together
  have fetch : large.readWord small.pc = small.readWord small.pc := by
    apply enlarges.readWord_eq
    intro outside
    have stepped := step_of_readWord_error outside
    exact together _ (congrArg Prod.snd stepped) trivial
  -- An address that is touched outside of memory is a fault, and there the two may part.
  have effects : ∀ word i, small.readWord small.pc = .ok word →
      Instruction.decode word = .ok i → i.effect large.seen = i.effect small.seen := by
    intro word i fetched decoded
    apply Instruction.effect_congr (register_seen_congr enlarges.registers)
    intro address touched
    apply enlarges.readWord_eq
    intro outside
    have refused := Instruction.effect_eq_error_iff.mpr ⟨address, touched, outside⟩
    have running : i ≠ .halt := by
      rintro rfl
      cases touched
    have stepped := step_of_instruction fetched decoded running
    rw [refused] at stepped
    exact together _ (congrArg Prod.snd stepped) trivial
  have outcome := small.stepsTo_step.alongside enlarges.registers fetch
    (fun _ _ _ _ _ => enlarges.policy) effects
  exact ⟨outcome.1, enlarges.of_moveAlike outcome.2⟩

/-- A run that does not leave memory is the same run in any larger memory, and ends with the words
    that were added as they were. -/
theorem enlargement_invisible {extra : Array Word} {small large : Machine}
    (enlarges : Enlarges extra small large) {budget : Nat} (positive : 1 ≤ budget)
    (inside : ∀ address, (small.run budget).2 ≠ .error (.outOfBounds address)) :
    (large.run budget).2 = (small.run budget).2 ∧
      Enlarges extra (small.run budget).1 (large.run budget).1 := by
  apply run_along (stepsAlong_enlarges extra) enlarges budget
  · intro none
    omega
  · intro fault faulted outside
    cases fault with
    | outOfBounds address => exact inside address faulted
    | misaligned | illegalOpcode | unboundFunct => exact outside

/-- Two words in front of a `hlt`: `addi x1 x0 5`, and `sw x0 8 x1`, which stores over the `hlt`. -/
def storeOverHalt : Machine := ((fresh { memoryWords := 3 }).load 0 [0x0A100028, 0x14008040]).1

theorem enlargement_invisible_store_over_halt :
    let large : Machine :=
      { storeOverHalt with memory := ⟨storeOverHalt.memory.words ++ #[7, 8]⟩ }
    (large.run 9).2 = .ok .halted ∧
      (large.run 9).1.memory.words = #[0x0A100028, 0x14008040, 5, 7, 8] := by
  intro large
  have enlarges : Enlarges #[7, 8] storeOverHalt large := ⟨rfl, rfl, rfl⟩
  obtain ⟨same, behind⟩ := enlargement_invisible enlarges (show 1 ≤ 9 by decide) nofun
  exact ⟨same.trans rfl, behind.words.trans rfl⟩

end Machine

end WordMachine
