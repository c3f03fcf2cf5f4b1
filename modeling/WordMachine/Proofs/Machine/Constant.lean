import Mathlib.Algebra.Group.Int.Defs
import WordMachine.Proofs.Assembly.Listing
import WordMachine.Proofs.Machine.Code

/-!
Constants in registers. An immediate of `addi` is signed, so the two parts of a constant do not just
stand side by side: where its low part is negative, the high part that `lui` writes is one more.
-/

namespace WordMachine

namespace Constant

def low (c : Word) : Int := (c.setWidth 12).toInt

/-- The upper twenty bits as a signed number, after the low part has been rounded away. -/
def high (c : Word) : Int := ((c + 0x800).extractLsb' 12 20).toInt

def source (rd : Register) (c : Word) : String :=
  s!"lui {rd.text} {decimal (high c)}\naddi {rd.text} {rd.text} {decimal (low c)}"

theorem high_add_low (c : Word) : BitVec.ofInt 32 (high c * 2 ^ 12 + low c) = c := by
  have rounded : (c + 0x800).toNat = (c.toNat + 2048) % 2 ^ 32 := BitVec.toNat_add c 0x800
  have upper : high c = ((((c.toNat + 2048) % 2 ^ 32 / 2 ^ 12 : Nat)) : Int).bmod (2 ^ 20) := by
    rw [high, BitVec.toInt_extractLsb', rounded, Nat.shiftRight_eq_div_pow]
  have lower : low c = (c.toNat : Int).bmod (2 ^ 12) := BitVec.toInt_setWidth c
  apply BitVec.eq_of_toNat_eq
  have bound := c.isLt
  rw [BitVec.toNat_ofInt, upper, lower, Int.bmod_eq_emod, Int.bmod_eq_emod]
  split <;> split <;> omega

def program (rd : Register) (c : Word) : List Instruction :=
  [.lui rd ⟨(c + 0x800).extractLsb' 12 20⟩, .addi rd rd ⟨c.setWidth 12⟩]

theorem source_eq_listing (rd : Register) (c : Word) :
    source rd c = Instruction.listing (program rd c) := by
  apply String.toList_inj.mp
  -- The equation of a text with so many literals would take seconds to make.
  delta source
  simp only [program, Instruction.listing, Instruction.text, Instruction.tokens,
    List.map_cons, List.map_nil, String.intercalate_cons_cons, String.intercalate_singleton,
    String.toList_append, List.append_assoc]
  rfl

theorem assemble_source (d : Fin 32) (c : Word) :
    ∃ upper lower, assemble (source (.x d) c) = .ok [upper, lower] ∧
      Instruction.decode upper = .ok (.lui (.x d) ⟨(c + 0x800).extractLsb' 12 20⟩) ∧
      Instruction.decode lower = .ok (.addi (.x d) (.x d) ⟨c.setWidth 12⟩) := by
  obtain ⟨upper, first, readUpper⟩ :=
    Instruction.encode_of_general (i := .lui (.x d) ⟨(c + 0x800).extractLsb' 12 20⟩)
      (by simp [Instruction.registers])
  obtain ⟨lower, second, readLower⟩ :=
    Instruction.encode_of_general (i := .addi (.x d) (.x d) ⟨c.setWidth 12⟩)
      (by simp [Instruction.registers])
  refine ⟨upper, lower, ?_, readUpper, readLower⟩
  rw [source_eq_listing]
  exact Instruction.assemble_listing (.cons first (.cons second .nil))

end Constant

namespace Machine
open Constant

theorem steps_of_constant {m : Machine} {d : Fin 32} (general : d ≠ 0) {c upper lower : Word}
    (fetchUpper : m.readWord m.pc = .ok upper) (fetchLower : m.readWord (m.pc + 4) = .ok lower)
    (readUpper : Instruction.decode upper = .ok (.lui (.x d) ⟨(c + 0x800).extractLsb' 12 20⟩))
    (readLower : Instruction.decode lower = .ok (.addi (.x d) (.x d) ⟨c.setWidth 12⟩)) :
    ∃ middle, m.step = (middle, .ok .running) ∧
      middle.step = ((m.setRegister (.x d) c).setRegister .pc (m.pc + 8), .ok .running) := by
  let middle :=
    (m.setRegister (.x d) (BitVec.ofInt 32 (high c * 2 ^ 12))).setRegister .pc (m.pc + 4)
  have first : m.step = (middle, .ok .running) :=
    step_of_resultEffect fetchUpper readUpper (by simp) rfl
  have fetched : middle.readWord middle.pc = .ok lower := fetchLower
  have second := step_of_resultEffect fetched readLower (by simp) rfl
  have held : middle.register (.x d) = BitVec.ofInt 32 (high c * 2 ^ 12) := by
    simp [middle, register_setRegister, Register.zero, general]
  have value : BitVec.ofInt 32 (middle.seen.unsigned (.x d) + low c) = c := by
    rw [BitVec.ofInt_add, ofInt_unsigned, held, ← BitVec.ofInt_add, high_add_low]
  have following : middle.pc + 4 = m.pc + 8 := BitVec.add_assoc m.pc 4 4
  refine ⟨middle, first, second.trans ?_⟩
  change ((middle.setRegister _ (BitVec.ofInt 32 (middle.seen.unsigned (.x d) + low c))).setRegister
    .pc (middle.pc + 4), _) = _
  have apart : Register.pc ≠ .x d := by simp
  rw [value, following, setRegister_comm apart, setRegister_same, setRegister_same]

/-- Two instructions, written as a text of two lines, put any constant into any general register but
    `x0` and leave all else alone. -/
theorem lui_addi_builds_constant (c : Word) {d : Fin 32} (general : d ≠ 0) :
    (Imm.least 12 ≤ low c ∧ low c ≤ Imm.greatest 12) ∧
    (Imm.least 20 ≤ high c ∧ high c ≤ Imm.greatest 20) ∧
    ∃ upper lower, assemble (source (.x d) c) = .ok [upper, lower] ∧
      ∀ m : Machine, m.readWord m.pc = .ok upper → m.readWord (m.pc + 4) = .ok lower →
        ∃ middle final, m.step = (middle, .ok .running) ∧ middle.step = (final, .ok .running) ∧
          final.register (.x d) = c ∧ final.pc = m.pc + 8 ∧
          (∀ r, r ≠ .x d → r ≠ .pc → final.registers.stored r = m.registers.stored r) ∧
          final.memory = m.memory ∧ final.config = m.config := by
  obtain ⟨upper, lower, assembled, readUpper, readLower⟩ := assemble_source d c
  refine ⟨⟨Imm.least_le_value ⟨_⟩, Imm.value_le_greatest ⟨_⟩⟩,
    ⟨Imm.least_le_value ⟨_⟩, Imm.value_le_greatest ⟨_⟩⟩, upper, lower, assembled, ?_⟩
  intro m fetchUpper fetchLower
  obtain ⟨middle, first, second⟩ :=
    steps_of_constant general fetchUpper fetchLower readUpper readLower
  refine ⟨middle, _, first, second, ?_, rfl, ?_, rfl, rfl⟩
  · simp [register_setRegister, Register.zero, general]
  · intro r other notPc
    simp [stored_setRegister, other.symm, notPc.symm]

/-- The least upper part and the least lower part, whose sum is a positive number. -/
theorem lui_addi_builds_constant_from_least_parts :
    source (.x 5) 0x7FFFF800 = "lui x5 -524288\naddi x5 x5 -2048" ∧
    ∃ middle final,
      step ⟨{ memoryWords := 2 }, .zeros, ⟨#[0x10580000, 0x0A52C000]⟩⟩ = (middle, .ok .running) ∧
      middle.step = (final, .ok .running) ∧ final.register (.x 5) = 0x7FFFF800 ∧ final.pc = 8 := by
  have text : source (.x 5) 0x7FFFF800 = "lui x5 -524288\naddi x5 x5 -2048" := by decide
  have known : assemble "lui x5 -524288\naddi x5 x5 -2048" = .ok [0x10580000, 0x0A52C000] := rfl
  obtain ⟨-, -, upper, lower, assembled, steps⟩ :=
    lui_addi_builds_constant 0x7FFFF800 (show (5 : Fin 32) ≠ 0 by decide)
  rw [text, known] at assembled
  cases assembled
  obtain ⟨middle, final, first, second, built, next, -⟩ :=
    steps ⟨{ memoryWords := 2 }, .zeros, ⟨#[0x10580000, 0x0A52C000]⟩⟩ rfl rfl
  exact ⟨text, middle, final, first, second, built, next⟩

end Machine

end WordMachine
