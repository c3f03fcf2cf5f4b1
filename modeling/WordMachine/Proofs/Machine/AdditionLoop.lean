import Mathlib.Algebra.Group.Nat.Defs
import WordMachine.Proofs.Machine.Code
import WordMachine.Proofs.Machine.Run

/-!
Multiplication by a loop, as the demonstration does it. The loop adds `x2` to `x8` once for every
unit of `x1` and stores the sum at address 0. The other registers that it writes to are the counter
`x1` itself and the flag `x3`.
-/

namespace WordMachine

namespace AdditionLoop

abbrev x1 : Register := .x ⟨1, by decide⟩
abbrev x2 : Register := .x ⟨2, by decide⟩
abbrev x3 : Register := .x ⟨3, by decide⟩
abbrev x7 : Register := .x ⟨7, by decide⟩
abbrev x8 : Register := .x ⟨8, by decide⟩

/-- What stands at the addresses 12 to 36 of the demonstration. -/
def program : List Instruction :=
  [.slti x3 x1 ⟨1⟩,
   .bne x3 .zero ⟨12⟩,
   .addi x1 x1 ⟨-1⟩,
   .add x8 x8 x2,
   .jal .zero ⟨-20⟩,
   .sw x7 ⟨0⟩ x8,
   .halt]

end AdditionLoop

open AdditionLoop in
def Machine.inLoop (m : Machine) (pc counter flag total : Word) : Machine :=
  (((m.setRegister x1 counter).setRegister x3 flag).setRegister x8 total).setRegister .pc pc

namespace AdditionLoop
open Machine

section
variable {m : Machine} {pc counter flag total : Word}

theorem inLoop_self (m : Machine) :
    m.inLoop m.pc (m.register x1) (m.register x3) (m.register x8) = m := by
  rw [inLoop, setRegister_register, setRegister_register, setRegister_register]
  exact m.setRegister_register .pc

theorem setRegister_pc (next : Word) :
    (m.inLoop pc counter flag total).setRegister .pc next = m.inLoop next counter flag total :=
  setRegister_same _ _ _ _

theorem setRegister_total (next : Word) :
    (m.inLoop pc counter flag total).setRegister x8 next = m.inLoop pc counter flag next := by
  rw [inLoop, setRegister_comm (show Register.pc ≠ x8 by decide), setRegister_same]
  rfl

theorem setRegister_flag (next : Word) :
    (m.inLoop pc counter flag total).setRegister x3 next = m.inLoop pc counter next total := by
  rw [inLoop, setRegister_comm (show Register.pc ≠ x3 by decide),
    setRegister_comm (show x8 ≠ x3 by decide), setRegister_same]
  rfl

theorem setRegister_counter (next : Word) :
    (m.inLoop pc counter flag total).setRegister x1 next = m.inLoop pc next flag total := by
  rw [inLoop, setRegister_comm (show Register.pc ≠ x1 by decide),
    setRegister_comm (show x8 ≠ x1 by decide),
    setRegister_comm (show x3 ≠ x1 by decide), setRegister_same]
  rfl

theorem register_counter : (m.inLoop pc counter flag total).register x1 = counter := by
  simp [inLoop, register_setRegister, Register.zero]

theorem register_flag : (m.inLoop pc counter flag total).register x3 = flag := by
  simp [inLoop, register_setRegister, Register.zero]

theorem register_total : (m.inLoop pc counter flag total).register x8 = total := by
  simp [inLoop, register_setRegister, Register.zero]

theorem stored_other {r : Register} (other : r ≠ .pc ∧ r ≠ x1 ∧ r ≠ x3 ∧ r ≠ x8) :
    (m.inLoop pc counter flag total).registers.stored r = m.registers.stored r := by
  simp [inLoop, stored_setRegister, other, eq_comm]

theorem register_other {r : Register} (other : r ≠ .pc ∧ r ≠ x1 ∧ r ≠ x3 ∧ r ≠ x8) :
    (m.inLoop pc counter flag total).register r = m.register r := by
  rw [register, register, RegisterFile.read, RegisterFile.read, stored_other other]

variable (code : m.HasCode 12 program)
include code

theorem step_compare :
    (m.inLoop 12 counter flag total).step =
      (m.inLoop 16 counter (if counter.toInt < 1 then 1 else 0) total, .ok .running) := by
  obtain ⟨⟨word, fetched, decoded⟩, -⟩ := code
  rw [step_eq_after (m := m.inLoop 12 counter flag total) fetched decoded (by decide) rfl]
  simp only [after, setRegister_flag, setRegister_pc, register_seen, register_counter,
    apply_ite (BitVec.ofInt 32)]
  rfl

theorem step_branch :
    (m.inLoop 16 counter flag total).step =
      (m.inLoop (if flag = 0 then 20 else 32) counter flag total, .ok .running) := by
  obtain ⟨-, ⟨word, fetched, decoded⟩, -⟩ := code
  rw [step_eq_after (m := m.inLoop 16 counter flag total) fetched decoded (by decide) rfl]
  simp only [after, setRegister_pc, register_seen, register_flag, apply_ite (BitVec.ofInt 32)]
  rfl

theorem step_count :
    (m.inLoop 20 counter flag total).step =
      (m.inLoop 24 (counter - 1) flag total, .ok .running) := by
  obtain ⟨-, -, ⟨word, fetched, decoded⟩, -⟩ := code
  rw [step_eq_after (m := m.inLoop 20 counter flag total) fetched decoded (by decide) rfl]
  simp only [after, setRegister_counter, setRegister_pc, BitVec.ofInt_add, ofInt_unsigned,
    register_counter, BitVec.sub_eq_add_neg]
  rfl

theorem step_add :
    (m.inLoop 24 counter flag total).step =
      (m.inLoop 28 counter flag (total + m.register x2), .ok .running) := by
  obtain ⟨-, -, -, ⟨word, fetched, decoded⟩, -⟩ := code
  rw [step_eq_after (m := m.inLoop 24 counter flag total) fetched decoded (by decide) rfl]
  simp only [after, setRegister_total, setRegister_pc, BitVec.ofInt_add, ofInt_unsigned,
    register_total, register_other (show x2 ≠ .pc ∧ x2 ≠ x1 ∧ x2 ≠ x3 ∧ x2 ≠ x8 by decide)]
  rfl

theorem step_back :
    (m.inLoop 28 counter flag total).step = (m.inLoop 12 counter flag total, .ok .running) := by
  obtain ⟨-, -, -, -, ⟨word, fetched, decoded⟩, -⟩ := code
  rw [step_eq_after (m := m.inLoop 28 counter flag total) fetched decoded (by decide) rfl]
  simp only [after, setRegister_zero, setRegister_pc]
  rfl

/-- The program reaches up to the address 36, so there is a word at address 0 to store to. -/
theorem exists_readWord_zero : ∃ old, m.readWord 0 = .ok old := by
  obtain ⟨-, -, -, -, -, -, ⟨word, fetched, -⟩, -⟩ := code
  obtain ⟨-, inside⟩ := Memory.exists_read_iff.mp ⟨word, fetched⟩
  exact Memory.exists_read_iff.mpr ⟨rfl, Nat.zero_lt_of_lt inside⟩

theorem step_store (base : m.register x7 = 0) :
    (m.inLoop 32 counter flag total).step =
      (((m.inLoop 36 counter flag total).storeWord 0 total).1, .ok .running) := by
  obtain ⟨old, known⟩ := exists_readWord_zero code
  obtain ⟨-, -, -, -, -, ⟨word, fetched, decoded⟩, -⟩ := code
  have address : (m.inLoop 32 counter flag total).seen.unsigned x7 + (⟨0⟩ : Imm 12).value = 0 := by
    rw [Contents.unsigned, register_seen,
      register_other (show x7 ≠ .pc ∧ x7 ≠ x1 ∧ x7 ≠ x3 ∧ x7 ≠ x8 by decide), base]
    rfl
  have effect : Instruction.effect (m.inLoop 32 counter flag total).seen (.sw x7 ⟨0⟩ x8) =
      .ok { store := some (0, total), next := 36 } := by
    have held : (m.inLoop 32 counter flag total).seen.word (BitVec.ofInt 32 0) = .ok old := known
    rw [Instruction.effect, address, register_seen, register_total, Contents.storeEffect, held]
    rfl
  rw [step_eq_after (m := m.inLoop 32 counter flag total) fetched decoded (by decide) effect]
  rfl

theorem step_halt :
    ((m.inLoop 36 counter flag total).storeWord 0 total).1.step =
      (((m.inLoop 36 counter flag total).storeWord 0 total).1, .ok .halted) := by
  obtain ⟨old, known⟩ := exists_readWord_zero code
  obtain ⟨-, -, -, -, -, -, ⟨word, fetched, decoded⟩, -⟩ := code
  refine step_of_halt ?_ decoded
  exact (Memory.read_write_of_ne known (show (36 : Word) ≠ 0 by decide) total).trans fetched

theorem runsTo_of_lap {left rest : Nat} {final : Machine} (bound : left + 1 < 2 ^ 31)
    (onwards : (m.inLoop 12 (BitVec.ofNat 32 left) 0 (total + m.register x2)).RunsTo rest
      final) :
    (m.inLoop 12 (BitVec.ofNat 32 (left + 1)) flag total).RunsTo (rest + 5) final := by
  have value : (BitVec.ofNat 32 (left + 1)).toInt = left + 1 := by
    have small : (BitVec.ofNat 32 (left + 1)).toNat = left + 1 := Nat.mod_eq_of_lt (by omega)
    rw [BitVec.toInt_eq_toNat_of_lt (by omega), small, Int.natCast_succ]
  have below : BitVec.ofNat 32 (left + 1) - 1 = BitVec.ofNat 32 left := by
    rw [BitVec.ofNat_add]
    exact BitVec.add_sub_cancel _ _
  have compared : (m.inLoop 12 (BitVec.ofNat 32 (left + 1)) flag total).step =
      (m.inLoop 16 (BitVec.ofNat 32 (left + 1)) 0 total, .ok .running) := by
    rw [step_compare code, value, if_neg (by omega)]
  have counted : (m.inLoop 20 (BitVec.ofNat 32 (left + 1)) 0 total).step =
      (m.inLoop 24 (BitVec.ofNat 32 left) 0 total, .ok .running) := by
    rw [step_count code, below]
  exact .step compared (.step (step_branch code) (.step counted (.step (step_add code)
    (.step (step_back code) onwards))))

/-- The laps that are left add up, and three more steps compare, leave the loop and store. -/
theorem runsTo_halt (base : m.register x7 = 0) {left : Nat} (bound : left < 2 ^ 31)
    (flag total : Word) :
    let sum := total + BitVec.ofNat 32 left * m.register x2
    (m.inLoop 12 (BitVec.ofNat 32 left) flag total).RunsTo (5 * left + 3)
      ((m.inLoop 36 0 1 sum).storeWord 0 sum).1 := by
  induction left generalizing flag total with
  | zero =>
    rw [BitVec.zero_mul, BitVec.add_zero]
    exact .step (step_compare code) (.step (step_branch code) (.step (step_store code base)
      (.refl _)))
  | succ left ih =>
    have more : total + BitVec.ofNat 32 (left + 1) * m.register x2 =
        total + m.register x2 + BitVec.ofNat 32 left * m.register x2 := by
      rw [BitVec.ofNat_add, BitVec.add_mul, BitVec.one_mul]
      ac_rfl
    rw [more]
    exact runsTo_of_lap code bound (ih (by omega) 0 (total + m.register x2))

end

/-- The loop has come to the `hlt` with this sum, and has changed nothing else. -/
structure Finished (m final : Machine) (sum : Word) : Prop where
  config : final.config = m.config
  pc : final.pc = 36
  counter : final.register x1 = 0
  flag : final.register x3 = 1
  total : final.register x8 = sum
  others : ∀ r, r ≠ .pc ∧ r ≠ x1 ∧ r ≠ x3 ∧ r ≠ x8 →
    final.registers.stored r = m.registers.stored r
  words : ∀ k, final.memory.words[k]? = if k = 0 then some sum else m.memory.words[k]?

theorem finished_storeWord {m : Machine} (code : m.HasCode 12 program) (sum : Word) :
    Finished m ((m.inLoop 36 0 1 sum).storeWord 0 sum).1 sum := by
  obtain ⟨old, known⟩ := exists_readWord_zero code
  obtain ⟨written, same, words⟩ := Memory.write_of_read_ok known sum
  have registers (r : Register) : ((m.inLoop 36 0 1 sum).storeWord 0 sum).1.register r =
      (m.inLoop 36 0 1 sum).register r := rfl
  refine ⟨rfl, rfl, ?_, ?_, ?_, ?_, ?_⟩
  · rw [registers, register_counter]
  · rw [registers, register_flag]
  · rw [registers, register_total]
  · intro r other
    have kept : (m.inLoop 36 0 1 sum).registers.stored r = m.registers.stored r :=
      stored_other other
    exact kept
  · intro k
    have after : ((m.inLoop 36 0 1 sum).storeWord 0 sum).1.memory = written :=
      congrArg Prod.fst same
    rw [after, words, show (0 : Word).toNat = 0 from rfl]
    simp only [show 0 = 4 * k ↔ k = 0 by omega]

theorem step_mlt {m : Machine} (code : m.HasCode m.pc [.mlt x8 x1 x2]) :
    m.step.2 = .ok .running ∧
      m.step.1.register x8 = m.register x1 * m.register x2 := by
  obtain ⟨⟨word, fetched, decoded⟩, -⟩ := code
  rw [step_eq_after fetched decoded (by decide) rfl]
  refine ⟨rfl, ?_⟩
  simp only [after, register_setRegister, BitVec.ofInt_mul, ofInt_unsigned]
  rfl

/-- The loop multiplies: it halts after five steps for each unit of the counter and four more, with
    the product added to `x8` and stored. Where `x8` was zero that is what `mlt` gives. -/
theorem repeated_addition_multiplies {m : Machine} (code : m.HasCode 12 program)
    (start : m.pc = 12) (base : m.register x7 = 0)
    (bound : (m.register x1).toNat < 2 ^ 31) :
    let times := (m.register x1).toNat
    let sum := BitVec.ofNat 32 ((m.register x8).toNat + times * (m.register x2).toNat)
    ∃ final, m.RunsTo (5 * times + 3) final ∧
      (∀ budget, 5 * times + 4 ≤ budget → m.run budget = (final, .ok .halted)) ∧
      Finished m final sum ∧
      (m.register x8 = 0 → ∀ other : Machine,
        other.HasCode other.pc [.mlt x8 x1 x2] →
        other.register x1 = m.register x1 → other.register x2 = m.register x2 →
        other.step.2 = .ok .running ∧ other.step.1.register x8 = final.register x8) := by
  intro times sum
  have counted : BitVec.ofNat 32 times = m.register x1 := BitVec.ofNat_toNat _ _
  have product : sum = m.register x8 + m.register x1 * m.register x2 := by
    rw [← counted]
    simp [sum, BitVec.ofNat_add, BitVec.ofNat_mul]
  have reached := runsTo_halt code base bound (m.register x3) (m.register x8)
  rw [counted, ← start, inLoop_self, ← product] at reached
  refine ⟨_, reached, ?_, finished_storeWord code sum, ?_⟩
  · intro budget enough
    exact run_of_runsTo_stopped reached (step_halt code) nofun enough
  · intro zero other multiplies sameCount sameStep
    obtain ⟨running, result⟩ := step_mlt multiplies
    refine ⟨running, ?_⟩
    rw [result, sameCount, sameStep, (finished_storeWord code sum).total, product, zero]
    exact (BitVec.zero_add _).symm

/-- The words of the loop in the least memory that holds them, and a number that makes the sum wrap
    around when it is added three times. -/
def entering : Machine :=
  ((((fresh { memoryWords := 10 }).load 12
    [0x0A308009, 0x0C300060, 0x0A10FFF8, 0x06840800, 0x0E0FFFEC, 0x14740000, 0]).1.setRegister
    .pc 12).setRegister x1 3).setRegister x2 0xC0000001

theorem repeated_addition_multiplies_wrapping :
    program.mapM Instruction.encode = .ok (entering.memory.words.toList.drop 3) ∧
    entering.HasCode 12 program ∧ (entering.register x1).toNat < 2 ^ 31 ∧
    ∃ final, entering.RunsTo 18 final ∧ entering.run 19 = (final, .ok .halted) ∧
      final.register x8 = 0x40000003 ∧ final.memory.words[0]? = some 0x40000003 ∧
      ∀ other : Machine, other.HasCode other.pc [.mlt x8 x1 x2] →
        other.register x1 = 3 → other.register x2 = 0xC0000001 →
        other.step.1.register x8 = 0x40000003 := by
  have code : entering.HasCode 12 program :=
    ⟨⟨_, rfl, rfl⟩, ⟨_, rfl, rfl⟩, ⟨_, rfl, rfl⟩, ⟨_, rfl, rfl⟩, ⟨_, rfl, rfl⟩, ⟨_, rfl, rfl⟩,
      ⟨_, rfl, rfl⟩, trivial⟩
  have few : (entering.register x1).toNat < 2 ^ 31 := by decide
  obtain ⟨final, reached, halts, finished, multiplied⟩ :=
    repeated_addition_multiplies code rfl rfl few
  have total : final.register x8 = 0x40000003 := finished.total
  refine ⟨rfl, code, few, final, reached, halts 19 (by decide), total, finished.words 0, ?_⟩
  intro other multiplies sameCount sameStep
  exact (multiplied rfl other multiplies sameCount sameStep).2.trans total

end AdditionLoop

end WordMachine
