import WordMachine.Proofs.Machine.Step

/-!
Everything that a step can come to. What is true of all steps of all machines is proved by going
through these seven cases.
-/

namespace WordMachine

namespace Machine
open Instruction (decode)

/-- How a step from `m` ends, and on which machine. Each way is under the conditions, all that there
    are, that the word at the program counter, the policy and the operands set for it. -/
inductive StepsTo (m : Machine) : Machine → Except Fault Status → Prop where
  | unread {fault : Fault} (unread : m.readWord m.pc = .error fault) :
      StepsTo m m (.error fault)
  | unknownOpcode {word : Word} {code : Nat} (fetched : m.readWord m.pc = .ok word)
      (refused : decode word = .error (.unknownOpcode code)) :
      StepsTo m m (.error (.illegalOpcode m.pc code))
  | functIgnored {word : Word} {opcode : Opcode} {funct : Nat}
      (fetched : m.readWord m.pc = .ok word)
      (refused : decode word = .error (.unboundFunct opcode funct))
      (policy : m.config.unboundFunct = .ignore) :
      StepsTo m m.advance (.ok .running)
  | functRefused {word : Word} {opcode : Opcode} {funct : Nat}
      (fetched : m.readWord m.pc = .ok word)
      (refused : decode word = .error (.unboundFunct opcode funct))
      (policy : m.config.unboundFunct = .fault) :
      StepsTo m m (.error (.unboundFunct m.pc opcode funct))
  | halted {word : Word} (fetched : m.readWord m.pc = .ok word)
      (decoded : decode word = .ok .halt) :
      StepsTo m m (.ok .halted)
  | faulted {word : Word} {i : Instruction} {fault : Fault}
      (fetched : m.readWord m.pc = .ok word) (decoded : decode word = .ok i)
      (running : i ≠ .halt) (effect : i.effect m.seen = .error fault) :
      StepsTo m m (.error fault)
  | performed {word : Word} {i : Instruction} {e : Effect} {next : Machine}
      (fetched : m.readWord m.pc = .ok word) (decoded : decode word = .ok i)
      (running : i ≠ .halt) (effect : i.effect m.seen = .ok e) (becomes : m.Becomes next e) :
      StepsTo m next (.ok .running)

theorem stepsTo_step (m : Machine) : m.StepsTo m.step.1 m.step.2 := by
  cases fetched : m.readWord m.pc with
  | error fault =>
    rw [step_of_readWord_error fetched]
    exact .unread fetched
  | ok word =>
    cases decoded : decode word with
    | error error =>
      cases error with
      | unknownOpcode code =>
        rw [step_of_unknownOpcode fetched decoded]
        exact .unknownOpcode fetched decoded
      | unboundFunct opcode funct =>
        have stepped := step_of_unboundFunct fetched decoded
        cases policy : m.config.unboundFunct with
        | ignore =>
          rw [policy] at stepped
          rw [stepped]
          exact .functIgnored fetched decoded policy
        | fault =>
          rw [policy] at stepped
          rw [stepped]
          exact .functRefused fetched decoded policy
    | ok i =>
      by_cases halt : i = .halt
      · subst halt
        rw [step_of_halt fetched decoded]
        exact .halted fetched decoded
      · have stepped := step_of_instruction fetched decoded halt
        cases effect : i.effect m.seen with
        | ok e =>
          rw [effect] at stepped
          obtain ⟨next, stepped, becomes⟩ := stepped
          rw [stepped]
          exact .performed fetched decoded halt effect becomes
        | error fault =>
          rw [effect] at stepped
          rw [stepped]
          exact .faulted fetched decoded halt effect

theorem StepsTo.config_eq {m next : Machine} {result : Except Fault Status}
    (stepped : m.StepsTo next result) : next.config = m.config := by
  cases stepped with
  | performed _ _ _ _ becomes => exact becomes.config
  | functIgnored => rfl
  | unread | unknownOpcode | functRefused | halted | faulted => rfl

theorem StepsTo.eq_of_stopped {m next : Machine} {result : Except Fault Status}
    (stepped : m.StepsTo next result) (stopped : result ≠ .ok .running) : next = m := by
  cases stepped with
  | functIgnored | performed => exact absurd rfl stopped
  | unread | unknownOpcode | functRefused | halted | faulted => rfl

theorem step_of_stopped {m : Machine} (stopped : m.step.2 ≠ .ok .running) :
    m.step = (m, m.step.2) :=
  Prod.ext (m.stepsTo_step.eq_of_stopped stopped) rfl

theorem load_of_error {m : Machine} {offset : Word} {words : List Word} {fault : Fault}
    (refused : (m.load offset words).2 = .error fault) : (m.load offset words).1 = m := by
  have memory : (m.memory.load offset words).1 = m.memory := Memory.load_of_error refused
  simp only [load, memory]

end Machine

end WordMachine
