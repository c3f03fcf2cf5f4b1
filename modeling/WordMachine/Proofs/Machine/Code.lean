import WordMachine.Proofs.Machine.Change

/-!
Instructions as they stand in memory, and the machine after one of them written out. Nothing about a
step is left open by the effect of its instruction, so a run through known code is a calculation
with writes to registers.
-/

namespace WordMachine

theorem RegisterFile.eq_of_all_stored {a b : RegisterFile} (same : ∀ r, a.stored r = b.stored r) :
    a = b := eq_of_stored (same .pc) fun n => same (.x n)

namespace Machine
open Instruction (decode)

theorem eq_of_stored {m n : Machine} (config : m.config = n.config) (memory : m.memory = n.memory)
    (registers : ∀ r, m.registers.stored r = n.registers.stored r) : m = n := by
  obtain ⟨_, _, _⟩ := m
  obtain ⟨_, _, _⟩ := n
  cases config
  cases memory
  exact congrArg (Machine.mk _ · _) (RegisterFile.eq_of_all_stored registers)

theorem setRegister_same (m : Machine) (r : Register) (first second : Word) :
    (m.setRegister r first).setRegister r second = m.setRegister r second := by
  refine eq_of_stored rfl rfl fun s => ?_
  simp only [stored_setRegister]
  split <;> rfl

theorem setRegister_comm {r s : Register} (apart : r ≠ s) (m : Machine) (first second : Word) :
    (m.setRegister r first).setRegister s second =
      (m.setRegister s second).setRegister r first := by
  refine eq_of_stored rfl rfl fun q => ?_
  simp only [stored_setRegister]
  by_cases here : s = q
  · subst here
    simp [apart]
  · simp [here]

theorem setRegister_register (m : Machine) (r : Register) :
    m.setRegister r (m.register r) = m := by
  refine eq_of_stored rfl rfl fun s => ?_
  rw [stored_setRegister]
  split
  · rename_i here
    obtain ⟨rfl, general⟩ := here
    exact if_neg general
  · rfl

def after (m : Machine) (e : Effect) : Machine :=
  let written :=
    match e.result with
    | some (rd, value) => m.setRegister rd (BitVec.ofInt 32 value)
    | none => m
  let stored :=
    match e.store with
    | some (address, value) => (written.storeWord address value).1
    | none => written
  stored.setRegister .pc (BitVec.ofInt 32 e.next)

theorem memory_after (m : Machine) (e : Effect) :
    (m.after e).memory =
      match e.store with
      | some (address, value) => (m.memory.write address value).1
      | none => m.memory := by
  rcases e with ⟨_ | _, _ | _, _⟩ <;> rfl

theorem registers_after (m : Machine) (e : Effect) :
    (m.after e).registers =
      (match e.result with
        | some (rd, value) => m.registers.write rd (BitVec.ofInt 32 value)
        | none => m.registers).write .pc (BitVec.ofInt 32 e.next) := by
  rcases e with ⟨_ | _, _ | _, _⟩ <;> rfl

theorem Becomes.eq_after {m next : Machine} {e : Effect} (becomes : m.Becomes next e)
    (inside : m.StoresInside e) : next = m.after e := by
  apply eq_of_stored
  · rw [becomes.config]
    rcases e with ⟨_ | _, _ | _, _⟩ <;> rfl
  · exact (becomes.memory_eq inside).trans (m.memory_after e).symm
  · rw [registers_after]
    intro r
    cases r with
    | pc => exact becomes.pc
    | x n =>
      rw [becomes.general, RegisterFile.stored_write, if_neg (by simp)]
      rcases e.result with _ | ⟨rd, value⟩
      · rfl
      · have general : rd = .x n ∧ n ≠ 0 ↔ rd = .x n ∧ rd ≠ .zero := by
          constructor <;> rintro ⟨rfl, other⟩ <;> simpa [Register.zero] using other
        simp only [RegisterFile.stored_write, general]

theorem step_eq_after {m : Machine} {word : Word} {i : Instruction} {e : Effect}
    (fetched : m.readWord m.pc = .ok word) (decoded : decode word = .ok i) (running : i ≠ .halt)
    (effect : i.effect m.seen = .ok e) : m.step = (m.after e, .ok .running) := by
  have stepped := step_of_instruction fetched decoded running
  rw [effect] at stepped
  obtain ⟨next, stepped, becomes⟩ := stepped
  rw [stepped, becomes.eq_after (Instruction.storesInside_of_effect effect)]

theorem step_of_resultEffect {m : Machine} {word : Word} {i : Instruction} {rd : Register}
    {value : Int} (fetched : m.readWord m.pc = .ok word) (decoded : decode word = .ok i)
    (running : i ≠ .halt) (effect : i.effect m.seen = m.seen.resultEffect rd value) :
    m.step =
      ((m.setRegister rd (BitVec.ofInt 32 value)).setRegister .pc (m.pc + 4), .ok .running) := by
  rw [step_eq_after fetched decoded running effect, ← ofInt_following]
  rfl

def HasCode (m : Machine) (address : Word) : List Instruction → Prop
  | [] => True
  | i :: program =>
    (∃ word, m.readWord address = .ok word ∧ decode word = .ok i) ∧ m.HasCode (address + 4) program

end Machine

end WordMachine
