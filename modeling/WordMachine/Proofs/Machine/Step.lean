import WordMachine.Proofs.Instruction.Accepted
import WordMachine.Proofs.Machine.Effect

/-!
A step of the machine, by what the word at its program counter decodes to.
-/

namespace WordMachine

namespace Machine
open Instruction (decode ofOperands)

theorem step_of_readWord_error {m : Machine} {fault : Fault}
    (unread : m.readWord m.pc = .error fault) : m.step = (m, .error fault) := by
  rw [step, unread]

theorem step_of_execute {m next : Machine} {word : Word} {opcode : Opcode}
    (fetched : m.readWord m.pc = .ok word) (known : Opcode.ofWord word = .ok opcode)
    (running : opcode ≠ .hlt) (executed : m.execute opcode word = (next, .ok ())) :
    m.step = (next.advance, .ok .running) := by
  cases opcode with
  | hlt => exact absurd rfl running
  | _ => simp only [step, fetched, known, executed]

theorem step_of_execute_error {m next : Machine} {word : Word} {opcode : Opcode} {fault : Fault}
    (fetched : m.readWord m.pc = .ok word) (known : Opcode.ofWord word = .ok opcode)
    (running : opcode ≠ .hlt) (executed : m.execute opcode word = (next, .error fault)) :
    m.step = (next, .error fault) := by
  cases opcode with
  | hlt => exact absurd rfl running
  | _ => simp only [step, fetched, known, executed]

theorem step_of_unknownOpcode {m : Machine} {word : Word} {code : Nat}
    (fetched : m.readWord m.pc = .ok word)
    (refused : decode word = .error (.unknownOpcode code)) :
    m.step = (m, .error (.illegalOpcode m.pc code)) := by
  obtain ⟨rfl, above⟩ := Instruction.decode_eq_unknownOpcode_iff.mp refused
  rw [step, fetched]
  simp only [Opcode.ofWord_eq_error_iff.mpr ⟨rfl, above⟩]

theorem step_of_unboundFunct {m : Machine} {word : Word} {opcode : Opcode} {funct : Nat}
    (fetched : m.readWord m.pc = .ok word)
    (refused : decode word = .error (.unboundFunct opcode funct)) :
    m.step =
      match m.config.unboundFunct with
      | .ignore => (m.advance, .ok .running)
      | .fault => (m, .error (.unboundFunct m.pc opcode funct)) := by
  obtain ⟨same, unbound⟩ := Instruction.decode_eq_unboundFunct_iff.mp refused
  have known := Opcode.ofWord_eq_ok_iff.mpr same
  have missing := Instruction.ofOperands_eq_error_iff.mpr ⟨funct, unbound, rfl⟩
  have running : opcode ≠ .hlt := by
    rintro rfl
    exact unbound
  obtain ⟨_, eq, missed⟩ := m.execute_unbound missing
  cases eq
  rw [missFunct] at missed
  cases policy : m.config.unboundFunct with
  | ignore =>
    rw [policy] at missed
    exact step_of_execute fetched known running missed
  | fault =>
    rw [policy] at missed
    exact step_of_execute_error fetched known running missed

theorem step_of_halt {m : Machine} {word : Word} (fetched : m.readWord m.pc = .ok word)
    (decoded : decode word = .ok .halt) : m.step = (m, .ok .halted) := by
  rw [step, fetched]
  simp only [Instruction.ofWord_of_decode decoded, Instruction.opcode]

theorem step_of_instruction {m : Machine} {word : Word} {i : Instruction}
    (fetched : m.readWord m.pc = .ok word) (decoded : decode word = .ok i) (running : i ≠ .halt) :
    match i.effect m.seen with
    | .ok e => ∃ next, m.step = (next, .ok .running) ∧ m.Becomes next e
    | .error fault => m.step = (m, .error fault) := by
  have known := Instruction.ofWord_of_decode decoded
  have other : i.opcode ≠ .hlt := mt Instruction.opcode_eq_hlt_iff.mp running
  have operands : ofOperands i.opcode word = .ok i := by rwa [decode, known] at decoded
  have performed := m.execute_performs operands other
  cases effect : i.effect m.seen with
  | ok e =>
    rw [effect] at performed
    obtain ⟨next, outcome, becomes⟩ := performed
    exact ⟨next.advance, step_of_execute fetched known other outcome, becomes⟩
  | error fault =>
    rw [effect] at performed
    exact step_of_execute_error fetched known other performed

theorem becomes_advance (m : Machine) : m.Becomes m.advance { next := m.seen.following } := by
  obtain ⟨_, same, becomes⟩ := m.performs_nothing
  cases same
  exact becomes

/-- The machine does with the word at its program counter what decoding that word says, whatever
    the word is. What it goes by are the slots of its registers and the words of its memory. -/
theorem step_follows_decode {m : Machine} (zero : m.registers.stored .zero = 0) :
    (∀ fault, m.held.word m.pc = .error fault → m.step = (m, .error fault)) ∧
    ∀ word, m.held.word m.pc = .ok word →
      (∀ code, decode word = .error (.unknownOpcode code) →
        m.step = (m, .error (.illegalOpcode m.pc code))) ∧
      (∀ opcode funct, decode word = .error (.unboundFunct opcode funct) →
        (m.config.unboundFunct = .fault →
          m.step = (m, .error (.unboundFunct m.pc opcode funct))) ∧
        (m.config.unboundFunct = .ignore →
          ∃ next, m.step = (next, .ok .running) ∧ m.Becomes next { next := m.held.following })) ∧
      (decode word = .ok .halt → m.step = (m, .ok .halted)) ∧
      ∀ i, decode word = .ok i → i ≠ .halt →
        (∀ fault, i.effect m.held = .error fault → m.step = (m, .error fault)) ∧
        ∀ e, i.effect m.held = .ok e →
          ∃ next, m.step = (next, .ok .running) ∧ m.Becomes next e := by
  rw [← seen_eq_held zero]
  refine ⟨fun _ => step_of_readWord_error, ?_⟩
  intro word fetched
  refine ⟨fun _ => step_of_unknownOpcode fetched, ?_, step_of_halt fetched, ?_⟩
  · intro opcode funct refused
    have stepped := step_of_unboundFunct fetched refused
    refine ⟨fun policy => ?_, fun policy => ?_⟩
    · rwa [policy] at stepped
    · rw [policy] at stepped
      exact ⟨m.advance, stepped, m.becomes_advance⟩
  · intro i decoded running
    have stepped := step_of_instruction fetched decoded running
    refine ⟨fun fault effect => ?_, fun e effect => ?_⟩
    · rwa [effect] at stepped
    · rwa [effect] at stepped

/-- At its first word, with numbers in `x2` and `x3`, the one in `x2` negative, and another in the
    word at address 4. -/
def holding (word : Word) (policy : FunctPolicy := .ignore) : Machine where
  config := { memoryWords := 2, unboundFunct := policy }
  registers := ⟨((Vector.replicate 32 0).setIfInBounds 2 0xFFFFFFFE).setIfInBounds 3 8, 0⟩
  memory := ⟨#[word, 5]⟩

theorem step_follows_decode_each_way :
    (fresh { memoryWords := 0 }).step = (fresh { memoryWords := 0 }, .error (.outOfBounds 0)) ∧
    (holding 0x16000000).step = (holding 0x16000000, .error (.illegalOpcode 0 11)) ∧
    (holding 0x06000080 .fault).step =
      (holding 0x06000080 .fault, .error (.unboundFunct 0 .op 1)) ∧
    (∃ next, (holding 0x06000080).step = (next, .ok .running) ∧
      (holding 0x06000080).Becomes next { next := 4 }) ∧
    (holding 0).step = (holding 0, .ok .halted) ∧
    (∃ next, (holding 0x06110C00).step = (next, .ok .running) ∧
      (holding 0x06110C00).Becomes next { result := some (.x 1, 0xFFFFFFFE + 8), next := 4 }) ∧
    (∃ next, (holding 0x08110C00).step = (next, .ok .running) ∧
      (holding 0x08110C00).Becomes next { result := some (.x 1, 0xFFFFFFFE * 8), next := 4 }) ∧
    (∃ next, (holding 0x0A117FF9).step = (next, .ok .running) ∧
      (holding 0x0A117FF9).Becomes next { result := some (.x 1, 1), next := 4 }) ∧
    (∃ next, (holding 0x1211FFE0).step = (next, .ok .running) ∧
      (holding 0x1211FFE0).Becomes next { result := some (.x 1, 5), next := 4 }) ∧
    (∃ next, (holding 0x14317FE0).step = (next, .ok .running) ∧
      (holding 0x14317FE0).Becomes next { store := some (4, 0xFFFFFFFE), next := 4 }) ∧
    (∃ next, (holding 0x0C218080).step = (next, .ok .running) ∧
      (holding 0x0C218080).Becomes next { next := 20 }) ∧
    (holding 0x12110000).step = (holding 0x12110000, .error (.misaligned 0xFFFFFFFE)) := by
  have fetched (word : Word) (policy : FunctPolicy) :
      (holding word policy).held.word (holding word policy).pc = .ok word := by
    simp [held, pc, holding]
  have follows (word : Word) (policy : FunctPolicy) :=
    (step_follows_decode (m := holding word policy) rfl).2 word (fetched word policy)
  have performs (word : Word) (i : Instruction) (e : Effect) (decoded : decode word = .ok i)
      (running : i ≠ .halt) (effect : i.effect (holding word).held = .ok e) :=
    ((follows word .ignore).2.2.2 i decoded running).2 e effect
  refine ⟨(step_follows_decode (m := fresh { memoryWords := 0 }) rfl).1 _ rfl,
    (follows 0x16000000 .ignore).1 11 rfl, ((follows 0x06000080 .fault).2.1 .op 1 rfl).1 rfl,
    ((follows 0x06000080 .ignore).2.1 .op 1 rfl).2 rfl, (follows 0 .ignore).2.2.1 rfl,
    performs _ (.add (.x 1) (.x 2) (.x 3)) _ rfl (by simp) rfl,
    performs _ (.mlt (.x 1) (.x 2) (.x 3)) _ rfl (by simp) rfl,
    performs _ (.slti (.x 1) (.x 2) ⟨0xFFF⟩) _ rfl (by simp) rfl,
    performs _ (.lw (.x 1) (.x 3) ⟨0xFFC⟩) _ rfl (by simp) rfl,
    performs _ (.sw (.x 3) ⟨0xFFC⟩ (.x 2)) _ rfl (by simp) rfl,
    performs _ (.bne (.x 2) (.x 3) ⟨16⟩) _ rfl (by simp) rfl,
    ((follows 0x12110000 .ignore).2.2.2 (.lw (.x 1) (.x 2) ⟨0⟩) rfl (by simp)).1 _ rfl⟩

end Machine

end WordMachine
