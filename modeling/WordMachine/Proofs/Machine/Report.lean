import Mathlib.Algebra.Group.Nat.Defs
import WordMachine.Proofs.Machine.Change
import WordMachine.Proofs.Machine.Run
import WordMachine.Proofs.Memory.Load

/-!
Faults as statements about the machine that reports them. What a step, a run or a read reports is
so. A load names the address at which it ran out of memory, but an address is a word, and of a
memory that takes up all addresses there is none left to name.
-/

namespace WordMachine

def Fault.HoldsOf (fault : Fault) (m : Machine) : Prop :=
  match fault with
  | .misaligned address => m.readWord address = .error (.misaligned address)
  | .outOfBounds address => m.readWord address = .error (.outOfBounds address)
  | .illegalOpcode pc code =>
    pc = m.pc ∧ ∃ word, m.readWord pc = .ok word ∧
      Instruction.decode word = .error (.unknownOpcode code)
  | .unboundFunct pc opcode funct =>
    pc = m.pc ∧ m.config.unboundFunct = .fault ∧ ∃ word, m.readWord pc = .ok word ∧
      Instruction.decode word = .error (.unboundFunct opcode funct)

namespace Machine

theorem holdsOf_of_readWord_error {m : Machine} {address : Word} {fault : Fault}
    (unread : m.readWord address = .error fault) : fault.HoldsOf m := by
  rcases Memory.fault_of_read_error unread with rfl | rfl
  · exact unread
  · exact unread

theorem holdsOf_step {m : Machine} {fault : Fault} (faulted : m.step.2 = .error fault) :
    fault.HoldsOf m := by
  have outcome := m.stepsTo_step
  rw [faulted] at outcome
  generalize m.step.1 = next at outcome
  cases outcome with
  | unread unread => exact holdsOf_of_readWord_error unread
  | unknownOpcode fetched refused => exact ⟨rfl, _, fetched, refused⟩
  | functRefused fetched refused policy => exact ⟨rfl, policy, _, fetched, refused⟩
  | faulted fetched decoded running effect =>
    obtain ⟨address, _, unread⟩ := Instruction.effect_eq_error_iff.mp effect
    exact holdsOf_of_readWord_error unread

theorem holdsOf_load_iff {m : Machine} {offset : Word} {words : List Word} {fault : Fault}
    (refused : (m.load offset words).2 = .error fault) :
    fault.HoldsOf m ↔ fault = .misaligned offset ∨ m.memory.size < 2 ^ 30 := by
  rcases Memory.fault_of_load_error refused with ⟨rfl, misaligned⟩ | rfl
  · have unread : m.readWord offset = .error (.misaligned offset) := by
      rw [readWord, Memory.read_eq, if_pos misaligned]
    simp only [Fault.HoldsOf, unread, true_or]
  · have outside := m.memory.read_firstOutside_iff offset
    simpa only [Fault.HoldsOf, readWord, reduceCtorEq, false_or] using outside

/-- The report of a step, a run or a read is always so, and that of a load wherever there are
    addresses outside of memory. -/
theorem faults_hold (m : Machine) :
    (∀ fault, m.step.2 = .error fault → fault.HoldsOf m.step.1) ∧
    (∀ budget fault, (m.run budget).2 = .error fault → fault.HoldsOf (m.run budget).1) ∧
    (∀ address fault, m.readWord address = .error fault → fault.HoldsOf m) ∧
    ∀ offset words fault, (m.load offset words).2 = .error fault →
      (fault.HoldsOf (m.load offset words).1 ↔
        fault = .misaligned offset ∨ m.memory.size < 2 ^ 30) := by
  refine ⟨?_, ?_, fun _ _ => holdsOf_of_readWord_error, ?_⟩
  · intro fault faulted
    have stays : m.step.1 = m := by
      have stopped : m.step.2 ≠ .ok .running := by simp [faulted]
      exact congrArg Prod.fst (step_of_stopped stopped)
    rw [stays]
    exact holdsOf_step faulted
  · intro budget fault faulted
    obtain ⟨_, _, _, stepped⟩ := step_of_run_error faulted
    exact holdsOf_step (congrArg Prod.snd stepped)
  · intro offset words fault refused
    rw [load_of_error refused]
    exact holdsOf_load_iff refused

theorem faults_hold_stray_load_and_overrun :
    Fault.HoldsOf (.illegalOpcode 0 11) (holding 0x16000000).step.1 ∧
    Fault.HoldsOf (.misaligned 2) (strayLoad.run 9).1 ∧
    Fault.HoldsOf (.outOfBounds 8) strayLoad ∧
    (Fault.HoldsOf (.outOfBounds 8) (strayLoad.load 4 [1, 2]).1 ↔
      Fault.outOfBounds 8 = .misaligned 4 ∨ strayLoad.memory.size < 2 ^ 30) :=
  ⟨(faults_hold (holding 0x16000000)).1 _ rfl, (faults_hold strayLoad).2.1 9 _ rfl,
    (faults_hold strayLoad).2.2.1 8 _ rfl, (faults_hold strayLoad).2.2.2 4 [1, 2] _ rfl⟩

theorem load_of_full {m : Machine} (full : m.memory.size = 2 ^ 30) {offset : Word}
    {words : List Word} (aligned : offset.toNat % 4 = 0)
    (overrun : 2 ^ 30 < offset.toNat / 4 + words.length) :
    m.load offset words = (m, .error (.outOfBounds 0)) := by
  have start : offset.toNat / 4 ≤ 2 ^ 30 := by
    have bound := offset.isLt
    omega
  have refused := Memory.load_of_overrun aligned (by rwa [full])
  rw [full, Nat.max_eq_right start] at refused
  rw [load, refused]
  rfl

/-- A memory of `2 ^ 30` words has an address for each of them and no other address. Of two words
    for the last place the second one has none, and the fault names the first word of memory. -/
theorem overrun_of_full_memory_names_first_word :
    ((fresh { memoryWords := 2 ^ 30 }).load 0xFFFFFFFC [1, 2]).2 = .error (.outOfBounds 0) ∧
      ((fresh { memoryWords := 2 ^ 30 }).load 0xFFFFFFFC [1, 2]).1.readWord 0 = .ok 0 := by
  have full : (fresh { memoryWords := 2 ^ 30 }).memory.size = 2 ^ 30 := Memory.size_zeros _
  have read : (fresh { memoryWords := 2 ^ 30 }).readWord 0 = .ok 0 := by
    have held : (Memory.zeros (2 ^ 30)).words[0]? = some 0 := by
      rw [Memory.getElem?_zeros, if_pos (Nat.two_pow_pos 30)]
    exact Memory.read_eq_ok_iff.mpr ⟨0, rfl, held⟩
  rw [load_of_full full (by decide) (by decide)]
  exact ⟨rfl, read⟩

end Machine

end WordMachine
