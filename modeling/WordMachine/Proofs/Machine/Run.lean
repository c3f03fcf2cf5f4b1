import Mathlib.Logic.Function.Iterate
import WordMachine.Machine.Step
import WordMachine.Proofs.Machine.Outcome

/-!
Runs as numbers of steps. A run of any budget takes steps that leave the machine running, and either
its budget ends there or one more step halts or faults, on the machine as those steps left it. Runs,
steps and loads are the commands that a machine is given one after another.
-/

namespace WordMachine

namespace Machine

/-- The machine takes that many steps in a row that leave it running, and then is `final`. -/
inductive RunsTo : Machine → Nat → Machine → Prop where
  | refl (m : Machine) : RunsTo m 0 m
  | step {m next final : Machine} {count : Nat} (stepped : m.step = (next, .ok .running))
      (rest : RunsTo next count final) : RunsTo m (count + 1) final

theorem runOn_of_runsTo {m final : Machine} {count : Nat} (reached : m.RunsTo count final)
    (last : Status) (budget : Nat) :
    runOn last (count + budget) m =
      runOn (if count = 0 then last else .running) budget final := by
  induction reached generalizing last with
  | refl m => rw [Nat.zero_add, if_pos rfl]
  | step stepped rest ih =>
    rw [Nat.succ_add, runOn, stepped]
    simp only [ih, ite_self, Nat.succ_ne_zero, if_false]

theorem runOn_of_stopped {m : Machine} {result : Except Fault Status}
    (stepped : m.step = (m, result)) (stopped : result ≠ .ok .running) (last : Status)
    (budget : Nat) : runOn last (budget + 1) m = (m, result) := by
  rw [runOn, stepped]
  match result, stopped with
  | .ok .running, stopped => exact absurd rfl stopped
  | .ok .halted, _ => rfl
  | .error fault, _ => rfl

theorem runsTo_or_stops (budget : Nat) (m : Machine) :
    (∃ final, m.RunsTo budget final) ∨
      ∃ count < budget, ∃ final result, m.RunsTo count final ∧ final.step = (final, result) ∧
        result ≠ .ok .running := by
  induction budget generalizing m with
  | zero => exact Or.inl ⟨m, .refl m⟩
  | succ budget ih =>
    by_cases running : m.step.2 = .ok .running
    · have stepped : m.step = (m.step.1, .ok .running) := Prod.ext rfl running
      rcases ih m.step.1 with ⟨final, reached⟩ | ⟨count, less, final, result, reached, stops⟩
      · exact Or.inl ⟨final, .step stepped reached⟩
      · exact Or.inr ⟨count + 1, Nat.succ_lt_succ less, final, result, .step stepped reached, stops⟩
    · exact Or.inr ⟨0, Nat.zero_lt_succ budget, m, m.step.2, .refl m, step_of_stopped running,
        running⟩

theorem run_of_runsTo {m final : Machine} {count budget : Nat} (reached : m.RunsTo count final)
    (positive : 1 ≤ budget) : m.run (count + budget) = final.run budget := by
  obtain ⟨rest, rfl⟩ := Nat.exists_eq_add_of_le' positive
  rw [run, runOn_of_runsTo reached]
  rfl

theorem run_of_stopped {m : Machine} {result : Except Fault Status} {budget : Nat}
    (stepped : m.step = (m, result)) (stopped : result ≠ .ok .running) (positive : 1 ≤ budget) :
    m.run budget = (m, result) := by
  obtain ⟨rest, rfl⟩ := Nat.exists_eq_add_of_le' positive
  exact runOn_of_stopped stepped stopped m.status rest

theorem run_of_runsTo_stopped {m final : Machine} {result : Except Fault Status}
    {count budget : Nat} (reached : m.RunsTo count final) (stepped : final.step = (final, result))
    (stopped : result ≠ .ok .running) (less : count < budget) :
    m.run budget = (final, result) := by
  obtain ⟨rest, rfl⟩ := Nat.exists_eq_add_of_lt less
  rw [Nat.add_assoc, run_of_runsTo reached (Nat.succ_pos rest)]
  exact run_of_stopped stepped stopped (Nat.succ_pos rest)

theorem run_of_runsTo_all {m final : Machine} {budget : Nat} (reached : m.RunsTo budget final) :
    m.run budget = (final, .ok (if budget = 0 then m.status else .running)) :=
  runOn_of_runsTo reached m.status 0

theorem run_one (m : Machine) : m.run 1 = m.step := by
  rcases known : m.step with ⟨next, _ | _ | _⟩ <;> simp only [run, runOn, known]

theorem step_of_run_error {m : Machine} {budget : Nat} {fault : Fault}
    (faulted : (m.run budget).2 = .error fault) :
    ∃ count < budget, m.RunsTo count (m.run budget).1 ∧
      (m.run budget).1.step = ((m.run budget).1, .error fault) := by
  rcases runsTo_or_stops budget m with ⟨final, reached⟩ | ⟨count, less, final, result, reached,
    stepped, stopped⟩
  · rw [run_of_runsTo_all reached] at faulted
    cases faulted
  · have ended := run_of_runsTo_stopped reached stepped stopped less
    rw [ended] at faulted ⊢
    cases faulted
    exact ⟨count, less, reached, stepped⟩

theorem run_keeps {P : Machine → Prop} (step : ∀ m, P m → P m.step.1) {m : Machine} (holds : P m)
    (budget : Nat) : P (m.run budget).1 := by
  have along : ∀ {n final : Machine} {count : Nat}, n.RunsTo count final → P n → P final := by
    intro n final count reached start
    induction reached with
    | refl => exact start
    | step stepped _ ih =>
      have next := step _ start
      rw [stepped] at next
      exact ih next
  rcases runsTo_or_stops budget m with ⟨final, reached⟩ | ⟨count, less, final, result, reached,
    stepped, stopped⟩
  · rw [run_of_runsTo_all reached]
    exact along reached holds
  · rw [run_of_runsTo_stopped reached stepped stopped less]
    exact along reached holds

/-- Whatever stops the machine leaves it as it was before the step or the load that was refused, and
    a fault met in the middle of a run is met again by every step from there on. -/
theorem fault_leaves_machine (m : Machine) :
    (∀ fault, m.step.2 = .error fault → m.step.1 = m) ∧
    (m.step.2 = .ok .halted → m.step.1 = m) ∧
    (∀ offset words fault, (m.load offset words).2 = .error fault →
      (m.load offset words).1 = m) ∧
    ∀ budget fault, (m.run budget).2 = .error fault →
      ∃ count < budget, m.RunsTo count (m.run budget).1 ∧
        ∀ again, ((fun s => s.step.1)^[again] (m.run budget).1).step =
          ((m.run budget).1, .error fault) := by
  refine ⟨?_, ?_, fun _ _ _ => load_of_error, ?_⟩
  · intro fault faulted
    have stopped : m.step.2 ≠ .ok .running := by simp [faulted]
    exact congrArg Prod.fst (step_of_stopped stopped)
  · intro halted
    have stopped : m.step.2 ≠ .ok .running := by simp [halted]
    exact congrArg Prod.fst (step_of_stopped stopped)
  · intro budget fault faulted
    rcases runsTo_or_stops budget m with ⟨final, reached⟩ | ⟨count, less, final, result, reached,
      stepped, stopped⟩
    · rw [run_of_runsTo_all reached] at faulted
      cases faulted
    · have ended := run_of_runsTo_stopped reached stepped stopped less
      rw [ended] at faulted ⊢
      cases faulted
      refine ⟨count, less, reached, fun again => ?_⟩
      rw [Function.iterate_fixed (congrArg Prod.fst stepped), stepped]

/-- Two words: `addi x1 x0 2`, and `lw x2 x1 0` at whose address no word can start. -/
def strayLoad : Machine := ((fresh { memoryWords := 2 }).load 0 [0x0A100010, 0x12208000]).1

theorem fault_leaves_machine_stray_load :
    (strayLoad.run 9).2 = .error (.misaligned 2) ∧
    (∃ count < 9, strayLoad.RunsTo count (strayLoad.run 9).1 ∧
      ∀ again, ((fun s => s.step.1)^[again] (strayLoad.run 9).1).step =
        ((strayLoad.run 9).1, .error (.misaligned 2))) ∧
    (strayLoad.run 1).1.step.1 = (strayLoad.run 1).1 ∧
    (strayLoad.load 4 [1, 2]).1 = strayLoad ∧
    (fresh { memoryWords := 1 }).step.1 = fresh { memoryWords := 1 } :=
  ⟨rfl, (fault_leaves_machine strayLoad).2.2.2 9 _ rfl,
    (fault_leaves_machine (strayLoad.run 1).1).1 (.misaligned 2) rfl,
    (fault_leaves_machine strayLoad).2.2.1 4 [1, 2] (.outOfBounds 8) rfl,
    (fault_leaves_machine (fresh { memoryWords := 1 })).2.1 rfl⟩

/-- A run can be cut anywhere and taken up again, however its first part ended; so a larger budget
    changes nothing about a run that has stopped. -/
theorem run_resumes (m : Machine) :
    m.run 1 = m.step ∧
    (∀ first second, 1 ≤ second → (m.run first).1.run second = m.run (first + second)) ∧
    ∀ budget more, 1 ≤ budget → budget ≤ more → (m.run budget).2 ≠ .ok .running →
      m.run more = m.run budget := by
  refine ⟨m.run_one, ?_, ?_⟩
  · intro first second positive
    rcases runsTo_or_stops first m with ⟨final, reached⟩ | ⟨count, less, final, result, reached,
      stepped, stopped⟩
    · rw [run_of_runsTo_all reached, run_of_runsTo reached positive]
    · rw [run_of_runsTo_stopped reached stepped stopped less,
        run_of_runsTo_stopped reached stepped stopped (Nat.lt_add_right second less)]
      exact run_of_stopped stepped stopped positive
  · intro budget more positive le ended
    rcases runsTo_or_stops budget m with ⟨final, reached⟩ | ⟨count, less, final, result, reached,
      stepped, stopped⟩
    · rw [run_of_runsTo_all reached, if_neg (Nat.ne_of_gt positive)] at ended
      exact absurd rfl ended
    · rw [run_of_runsTo_stopped reached stepped stopped less,
        run_of_runsTo_stopped reached stepped stopped (Nat.lt_of_lt_of_le less le)]

theorem run_resumes_stray_load :
    (strayLoad.run 0).1.run 1 = strayLoad.run 1 ∧
    (strayLoad.run 2).1.run 3 = strayLoad.run 5 ∧
    strayLoad.run 100 = strayLoad.run 2 :=
  ⟨(run_resumes strayLoad).2.1 0 1 (by decide), (run_resumes strayLoad).2.1 2 3 (by decide),
    (run_resumes strayLoad).2.2 2 100 (by decide) (by decide) nofun⟩

end Machine

inductive Command where
  | load (offset : Word) (words : List Word)
  | step
  | run (budget : Nat)
  deriving DecidableEq, Repr

namespace Machine

def perform (m : Machine) : Command → Machine
  | .load offset words => (m.load offset words).1
  | .step => m.step.1
  | .run budget => (m.run budget).1

def performAll (m : Machine) (commands : List Command) : Machine := commands.foldl perform m

theorem performAll_keeps {P : Machine → Prop} (step : ∀ m, P m → P m.step.1)
    {commands : List Command}
    (load : ∀ offset words, .load offset words ∈ commands → ∀ m, P m → P (m.load offset words).1)
    {m : Machine} (holds : P m) : P (m.performAll commands) := by
  induction commands generalizing m with
  | nil => exact holds
  | cons command commands ih =>
    have next : P (m.perform command) := by
      cases command with
      | load offset words => exact load offset words (List.mem_cons_self ..) m holds
      | step => exact step m holds
      | run budget => exact run_keeps step holds budget
    exact ih (fun offset words member => load offset words (List.mem_cons_of_mem command member))
      next

end Machine

end WordMachine
