import Mathlib.Data.List.Forall2
import WordMachine.Proofs.Assembly.Line
import WordMachine.Proofs.Machine.Change
import WordMachine.Proofs.Machine.Run
import WordMachine.Proofs.Machine.Report

/-!
Code without stores. Where nothing was ever loaded but words assembled from texts without `put` and
`sw`, all of memory is such words: a step changes none of them, and a word that was never loaded is
a `hlt`. So whatever address a jump goes to, the word there is an instruction.
-/

namespace WordMachine
open Assembly Instruction

namespace Instruction

def Stores (i : Instruction) : Prop := i.opcode = .put ∨ i.opcode = .sw

instance (i : Instruction) : Decidable i.Stores :=
  inferInstanceAs (Decidable (i.opcode = .put ∨ i.opcode = .sw))

end Instruction

namespace Assembly

def StoreFree (source : String) : Prop :=
  ∀ line ∈ lines source.toList, ∀ i, Denotes line i → ¬ i.Stores

theorem storeFree_of_denotes {source : String} (program : List Instruction)
    (each : List.Forall₂ Denotes (lines source.toList) program)
    (free : ∀ i ∈ program, ¬ i.Stores) : StoreFree source := by
  intro line member i denotes
  generalize lines source.toList = texts at each member
  induction each with
  | nil => cases member
  | cons first _ ih =>
    rcases List.mem_cons.mp member with rfl | later
    · rw [denotes.unique first]
      exact free _ (List.mem_cons_self ..)
    · exact ih (fun j known => free j (List.mem_cons_of_mem _ known)) later

end Assembly

def Fault.OfAddress : Fault → Prop
  | .misaligned _ | .outOfBounds _ => True
  | _ => False

namespace Machine

/-- Every word of memory is an instruction that does not store. -/
def StoreFree (m : Machine) : Prop :=
  ∀ word ∈ m.memory.words, ∃ i, decode word = .ok i ∧ ¬ i.Stores

theorem ofAddress_of_readWord_error {m : Machine} {address : Word} {fault : Fault}
    (unread : m.readWord address = .error fault) : fault.OfAddress := by
  rcases Memory.fault_of_read_error unread with rfl | rfl <;> trivial

theorem ofAddress_of_load_error {m : Machine} {offset : Word} {words : List Word} {fault : Fault}
    (refused : (m.load offset words).2 = .error fault) : fault.OfAddress := by
  rcases Memory.fault_of_load_error refused with ⟨rfl, _⟩ | rfl <;> trivial

theorem storeFree_fresh (config : Config) : (fresh config).StoreFree := by
  intro word member
  obtain rfl : word = 0 := (Array.mem_replicate.mp member).2
  exact ⟨.halt, rfl, by decide⟩

namespace StoreFree
variable {m : Machine}

theorem load_assembled (storeFree : m.StoreFree) {source : String} {words : List Word}
    (free : Assembly.StoreFree source) (assembled : assemble source = .ok words) (offset : Word) :
    (m.load offset words).1.StoreFree := by
  intro word member
  rcases Memory.mem_load member with before | loaded
  · exact storeFree word before
  · obtain ⟨line, known, i, denotes, encoded⟩ := exists_denotes_of_mem assembled loaded
    exact ⟨i, decode_of_encode encoded, free line known i denotes⟩

theorem decode_fetched (storeFree : m.StoreFree) {address word : Word}
    (fetched : m.readWord address = .ok word) : ∃ i, decode word = .ok i ∧ ¬ i.Stores := by
  obtain ⟨k, _, held⟩ := Memory.read_eq_ok_iff.mp fetched
  exact storeFree word (Array.mem_of_getElem? held)

theorem step_confined (storeFree : m.StoreFree) :
    m.step.1.memory = m.memory ∧ ∀ fault, m.step.2 = .error fault → fault.OfAddress := by
  have outcome := m.stepsTo_step
  generalize m.step.1 = next, m.step.2 = result at outcome
  cases outcome with
  | unread unread =>
    refine ⟨rfl, ?_⟩
    rintro _ ⟨⟩
    exact ofAddress_of_readWord_error unread
  -- Every word that can be fetched has an instruction.
  | unknownOpcode fetched refused | functIgnored fetched refused
  | functRefused fetched refused =>
    obtain ⟨i, decoded, _⟩ := storeFree.decode_fetched fetched
    rw [refused] at decoded
    cases decoded
  | halted => exact ⟨rfl, nofun⟩
  | faulted fetched decoded running effect =>
    refine ⟨rfl, ?_⟩
    rintro _ ⟨⟩
    obtain ⟨address, _, unread⟩ := effect_eq_error_iff.mp effect
    exact ofAddress_of_readWord_error unread
  | performed fetched decoded running effect becomes =>
    obtain ⟨i, known, stores⟩ := storeFree.decode_fetched fetched
    rw [decoded] at known
    cases known
    have none := (store_of_effect effect).resolve_right fun stored => stores stored.1
    have memory := becomes.memory_eq (storesInside_of_effect effect)
    rw [none] at memory
    exact ⟨memory, nofun⟩

theorem of_memory_eq (storeFree : m.StoreFree) {n : Machine} (same : n.memory = m.memory) :
    n.StoreFree := by
  rw [StoreFree, same]
  exact storeFree

theorem run_confined (storeFree : m.StoreFree) (budget : Nat) :
    (m.run budget).1.memory = m.memory ∧
      ∀ fault, (m.run budget).2 = .error fault → fault.OfAddress := by
  have memory : (m.run budget).1.memory = m.memory := by
    apply run_keeps (P := fun n => n.memory = m.memory) ?_ rfl
    intro n same
    exact (storeFree.of_memory_eq same).step_confined.1.trans same
  refine ⟨memory, ?_⟩
  intro fault faulted
  obtain ⟨_, _, _, stepped⟩ := step_of_run_error faulted
  exact (storeFree.of_memory_eq memory).step_confined.2 fault (congrArg Prod.snd stepped)

end StoreFree

/-- Whatever is done with code that was assembled from texts without stores, and wherever it was
    loaded, no step and no run changes memory or comes to a word without an instruction. The
    commands in front of any one of them are such commands too, so this is about all of them. -/
theorem store_free_code_is_confined (config : Config) {commands : List Command}
    (loads : ∀ offset words, .load offset words ∈ commands →
      ∃ source, Assembly.StoreFree source ∧ assemble source = .ok words) :
    let m := (fresh config).performAll commands
    (m.step.1.memory = m.memory ∧ ∀ fault, m.step.2 = .error fault → fault.OfAddress) ∧
    (∀ budget, (m.run budget).1.memory = m.memory ∧
      ∀ fault, (m.run budget).2 = .error fault → fault.OfAddress) ∧
    ∀ offset words fault, (m.load offset words).2 = .error fault → fault.OfAddress := by
  have storeFree : ((fresh config).performAll commands).StoreFree := by
    apply performAll_keeps (P := StoreFree)
    · intro m free
      exact free.of_memory_eq free.step_confined.1
    · intro offset words member m free
      obtain ⟨source, without, assembled⟩ := loads offset words member
      exact free.load_assembled without assembled offset
    · exact storeFree_fresh config
  exact ⟨storeFree.step_confined, storeFree.run_confined, fun _ _ _ => ofAddress_of_load_error⟩

/-- Two texts in one memory of four words: a loop that counts, a copy of it that does not fit, and a
    load from an odd address over the jump of the loop. -/
def overlaid : List Command :=
  [.load 0 [0x0A108008, 0x0E0FFFF8], .run 5, .load 12 [0x0A108008, 0x0E0FFFF8], .step,
    .load 4 [0x12208010]]

theorem store_free_code_is_confined_overlaid :
    let m := (fresh { memoryWords := 4, unboundFunct := .fault }).performAll overlaid
    (m.run 9).2 = .error (.misaligned 6) ∧
      (∀ fault, (m.run 9).2 = .error fault → fault.OfAddress) ∧
      (m.run 9).1.memory = m.memory ∧ m.step.1.memory = m.memory := by
  have counting : Assembly.StoreFree "addi x1 x1 1\njal x0 -8" :=
    storeFree_of_denotes [.addi (.x 1) (.x 1) ⟨1⟩, .jal .zero ⟨-8⟩]
      (.cons ⟨_, _, rfl, rfl⟩ (.cons ⟨_, _, rfl, rfl⟩ .nil)) (by decide)
  have oddLoad : Assembly.StoreFree "lw x2, x1, 2" :=
    storeFree_of_denotes [.lw (.x 2) (.x 1) ⟨2⟩] (.cons ⟨_, _, rfl, rfl⟩ .nil)
      (by decide)
  have loads : ∀ offset words, .load offset words ∈ overlaid →
      ∃ source, Assembly.StoreFree source ∧ assemble source = .ok words := by
    intro offset words member
    simp only [overlaid, List.mem_cons, List.not_mem_nil, or_false, Command.load.injEq,
      reduceCtorEq, false_or] at member
    rcases member with ⟨_, rfl⟩ | ⟨_, rfl⟩ | ⟨_, rfl⟩
    · exact ⟨_, counting, rfl⟩
    · exact ⟨_, counting, rfl⟩
    · exact ⟨_, oddLoad, rfl⟩
  have confined :=
    store_free_code_is_confined { memoryWords := 4, unboundFunct := .fault } loads
  exact ⟨rfl, (confined.2.1 9).2, (confined.2.1 9).1, confined.1.1⟩

end Machine

end WordMachine
