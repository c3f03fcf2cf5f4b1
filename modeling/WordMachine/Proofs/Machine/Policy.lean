import WordMachine.Proofs.Machine.Report
import WordMachine.Proofs.Machine.Simulation

/-!
The two policies about functs without an operation, on machines that differ in nothing else. They
make the same runs up to the first such funct, and there the one machine faults and the other goes
on to the next word.
-/

namespace WordMachine

namespace Machine
open Instruction (decode)

structure DifferInPolicy (strict lenient : Machine) : Prop where
  faults : strict.config.unboundFunct = .fault
  ignores : lenient.config.unboundFunct = .ignore
  memoryWords : lenient.config.memoryWords = strict.config.memoryWords
  registers : lenient.registers = strict.registers
  memory : lenient.memory = strict.memory

namespace DifferInPolicy
variable {strict lenient : Machine}

theorem readWord_eq (differ : DifferInPolicy strict lenient) (address : Word) :
    lenient.readWord address = strict.readWord address := by
  rw [readWord, readWord, differ.memory]

theorem status_eq (differ : DifferInPolicy strict lenient) : lenient.status = strict.status := by
  rw [status, status, pc_congr differ.registers, differ.readWord_eq]

theorem of_moveAlike (differ : DifferInPolicy strict lenient) {next other : Machine}
    (alike : MoveAlike strict next lenient other) : DifferInPolicy next other := by
  rcases alike with ⟨rfl, rfl⟩ | ⟨e, inside, first, second⟩
  · exact differ
  · have alsoInside : lenient.StoresInside e := by
      intro address value store
      rw [differ.readWord_eq]
      exact inside address value store
    refine ⟨?_, ?_, ?_, first.registers_eq differ.registers second, ?_⟩
    · rw [first.config, differ.faults]
    · rw [second.config, differ.ignores]
    · rw [first.config, second.config, differ.memoryWords]
    · rw [first.memory_eq inside, second.memory_eq alsoInside, differ.memory]

theorem step_of_unboundFunct (differ : DifferInPolicy strict lenient) {pc : Word}
    {opcode : Opcode} {funct : Nat}
    (faulted : strict.step.2 = .error (.unboundFunct pc opcode funct)) :
    pc = lenient.pc ∧ lenient.step = (lenient.advance, .ok .running) := by
  obtain ⟨rfl, _, word, fetched, refused⟩ := holdsOf_step faulted
  have same := pc_congr differ.registers
  have alsoFetched : lenient.readWord lenient.pc = .ok word := by
    rw [same, differ.readWord_eq, fetched]
  have stepped := Machine.step_of_unboundFunct alsoFetched refused
  rw [differ.ignores] at stepped
  exact ⟨same.symm, stepped⟩

end DifferInPolicy

end Machine

end WordMachine
