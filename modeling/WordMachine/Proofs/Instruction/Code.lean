import WordMachine.Instruction
import WordMachine.Proofs.Encoding.Layout

/-!
Instructions and their words. Encoding fills the slots of an instruction, and decoding accepts a
word for an instruction exactly when the word has its opcode and holds its operands: every other
statement about the two is a consequence of these.
-/

namespace WordMachine

namespace Instruction
open Layout

def registers : Instruction → List Register
  | .halt => []
  | .put value base offset | .get value base offset => [value, base, offset]
  | .add rd rs1 rs2 | .mlt rd rs1 rs2 => [rd, rs1, rs2]
  | .addi rd rs1 _ | .slti rd rs1 _ => [rd, rs1]
  | .lw rd base _ => [rd, base]
  | .sw base _ value => [base, value]
  | .bne rs1 rs2 _ => [rs1, rs2]
  | .jal rd _ | .lui rd _ => [rd]

/-- What encoding writes under the opcode. -/
def slots : Instruction → List Slot
  | .halt => []
  | .put value base offset | .get value base offset => LegacyFields.slots ⟨value, base, offset⟩
  | .add rd rs1 rs2 => RFields.slots ⟨rd, rs1, rs2, ⟨OpFunct.add.code⟩⟩
  | .mlt rd rs1 rs2 => RFields.slots ⟨rd, rs1, rs2, ⟨0⟩⟩
  | .addi rd rs1 imm => IFields.slots ⟨rd, rs1, imm, ⟨ImmFunct.addi.code⟩⟩
  | .slti rd rs1 imm => IFields.slots ⟨rd, rs1, imm, ⟨ImmFunct.slti.code⟩⟩
  | .lw rd base offset => IFields.slots ⟨rd, base, offset, ⟨0⟩⟩
  | .sw base offset value => SBFields.slots ⟨base, value, offset, ⟨0⟩⟩
  | .bne rs1 rs2 offset => SBFields.slots ⟨rs1, rs2, offset, ⟨BranchFunct.bne.code⟩⟩
  | .jal rd offset => UJFields.slots ⟨rd, offset⟩
  | .lui rd imm => UJFields.slots ⟨rd, imm⟩

/-- What decoding looks at under the opcode: all slots but the funct where the opcode has no use
    for it. -/
def operands : Instruction → List Slot
  | .mlt rd rs1 rs2 => (RFields.slots ⟨rd, rs1, rs2, ⟨0⟩⟩).dropLast
  | .lw rd base offset => (IFields.slots ⟨rd, base, offset, ⟨0⟩⟩).dropLast
  | .sw base offset value => (SBFields.slots ⟨base, value, offset, ⟨0⟩⟩).dropLast
  | i => i.slots

theorem encode_eq_fill (i : Instruction) : i.encode = Slot.fill i.opcode.toWord i.slots := by
  cases i with
  | halt => rfl
  | put | get => exact LegacyFields.encode_eq_fill rfl _
  | add | mlt => exact RFields.encode_eq_fill rfl _
  | addi | slti | lw => exact IFields.encode_eq_fill rfl _
  | sw | bne => exact SBFields.encode_eq_fill rfl _
  | jal | lui => exact UJFields.encode_eq_fill rfl _

theorem tiled (i : Instruction) : Slot.Tiled firstAt i.slots := by
  cases i with
  | halt => trivial
  | put | get => exact LegacyFields.tiled _
  | add | mlt => exact RFields.tiled _
  | addi | slti | lw => exact IFields.tiled _
  | sw | bne => exact SBFields.tiled _
  | jal | lui => exact UJFields.tiled _

theorem findSome?_refusal? (i : Instruction) :
    i.slots.findSome? Slot.refusal? =
      if .pc ∈ i.registers then some .programCounter else none := by
  cases i <;>
    simp only [slots, registers, LegacyFields.slots, RFields.slots, IFields.slots, SBFields.slots,
      UJFields.slots, Slot.refusal?_ofRegister, Slot.refusal?_ofFunct, Slot.refusal?_ofImm,
      List.findSome?_cons, OpFunct.code, ImmFunct.code, BranchFunct.code,
      List.mem_cons]
  all_goals grind

theorem opcode_of_ofOperands {opcode : Opcode} {word : Word} {i : Instruction}
    (read : ofOperands opcode word = .ok i) : i.opcode = opcode := by
  unfold ofOperands at read
  cases opcode <;> simp only at read
  case op | imm | branch =>
    split at read <;> cases read <;> rfl
  all_goals
    cases read
    rfl

theorem ofOperands_eq_ok_iff {word : Word} {i : Instruction} :
    ofOperands i.opcode word = .ok i ↔ ∀ s ∈ i.operands, s.Holds word := by
  cases i with
  | halt => simp [ofOperands, opcode, operands, slots]
  | put | get =>
    simp [ofOperands, opcode, operands, slots, ← LegacyFields.ofWord_eq_iff, LegacyFields.ofWord]
  | mlt =>
    simp [ofOperands, opcode, operands, RFields.slots, RFields.ofWord, Slot.Holds,
      Slot.ofRegister]
  | lw =>
    simp [ofOperands, opcode, operands, IFields.slots, IFields.ofWord, Slot.Holds,
      Slot.ofRegister, Slot.ofImm]
  | sw =>
    simp [ofOperands, opcode, operands, SBFields.slots, SBFields.ofWord, Slot.Holds,
      Slot.ofRegister, Slot.ofImm]
    exact fun _ => And.comm
  | jal | lui =>
    simp [ofOperands, opcode, operands, slots, ← UJFields.ofWord_eq_iff, UJFields.ofWord]
  | add =>
    simp only [opcode, operands, slots, ← RFields.ofWord_eq_iff, ofOperands]
    obtain ⟨a, b, c, n⟩ := RFields.ofWord word
    rcases n with _ | n <;> simp [OpFunct.ofCode?, OpFunct.code]
  | addi | slti =>
    simp only [opcode, operands, slots, ← IFields.ofWord_eq_iff, ofOperands]
    obtain ⟨a, b, c, n⟩ := IFields.ofWord word
    rcases n with _ | _ | n <;> simp [ImmFunct.ofCode?, ImmFunct.code]
  | bne =>
    simp only [opcode, operands, slots, ← SBFields.ofWord_eq_iff, ofOperands]
    obtain ⟨a, b, c, n⟩ := SBFields.ofWord word
    rcases n with _ | n <;> simp [BranchFunct.ofCode?, BranchFunct.code]

theorem decode_eq_ok_iff {word : Word} {i : Instruction} :
    decode word = .ok i ↔
      Opcode.codeOf word = i.opcode.code ∧ ∀ s ∈ i.operands, s.Holds word := by
  rw [← Opcode.ofWord_eq_ok_iff, ← ofOperands_eq_ok_iff, decode]
  cases known : Opcode.ofWord word with
  | error code => simp
  | ok opcode =>
    constructor
    · intro read
      rw [opcode_of_ofOperands read]
      exact ⟨rfl, read⟩
    · rintro ⟨same, read⟩
      cases same
      exact read

theorem ofWord_of_decode {word : Word} {i : Instruction} (decoded : decode word = .ok i) :
    Opcode.ofWord word = .ok i.opcode :=
  Opcode.ofWord_eq_ok_iff.mpr (decode_eq_ok_iff.mp decoded).1

theorem opcode_eq_hlt_iff {i : Instruction} : i.opcode = .hlt ↔ i = .halt := by
  cases i <;> simp [opcode]

/-- The slots behind the operands hold a funct of zero. -/
theorem slots_eq (i : Instruction) :
    i.slots = i.operands ∨
      ∃ offset, offset + 3 ≤ 32 ∧ i.slots = i.operands ++ [.ofFunct offset ⟨0⟩] := by
  cases i with
  | mlt => exact Or.inr ⟨innerFunctAt, by decide, rfl⟩
  | lw | sw => exact Or.inr ⟨lastFunctAt, by decide, rfl⟩
  | _ => exact Or.inl rfl

theorem tiled_operands (i : Instruction) : Slot.Tiled firstAt i.operands := by
  have tiled := i.tiled
  rcases i.slots_eq with same | ⟨offset, _, more⟩
  · rwa [same] at tiled
  · rw [more] at tiled
    exact Slot.tiled_of_append tiled

theorem encode_of_general {i : Instruction} (general : .pc ∉ i.registers) :
    ∃ word, i.encode = .ok word ∧ decode word = .ok i := by
  have free : ∀ s ∈ i.slots, s.refusal? = none := by
    have none := i.findSome?_refusal?
    rwa [if_neg general, List.findSome?_eq_none_iff] at none
  obtain ⟨word, filled, holds, keep, _⟩ := Slot.fill_ok i.tiled i.opcode.zeroBelow_toWord free
  refine ⟨word, i.encode_eq_fill.trans filled, decode_eq_ok_iff.mpr ⟨?_, ?_⟩⟩
  · rw [Opcode.codeOf_congr keep, Opcode.codeOf_toWord]
  · intro s member
    apply holds
    rcases i.slots_eq with same | ⟨offset, _, more⟩
    · rwa [same]
    · rw [more]
      exact List.mem_append_left _ member

theorem encode_of_programCounter {i : Instruction} (named : .pc ∈ i.registers) :
    i.encode = .error .programCounter := by
  rw [encode_eq_fill]
  apply Slot.fill_eq_error i.tiled
  rw [findSome?_refusal?, if_pos named]

theorem general_of_encode {i : Instruction} {word : Word} (encoded : i.encode = .ok word) :
    .pc ∉ i.registers := by
  intro named
  rw [encode_of_programCounter named] at encoded
  cases encoded

theorem exists_x_of_encode {i : Instruction} {word : Word} (encoded : encode i = .ok word)
    {r : Register} (named : r ∈ i.registers) : ∃ n : Fin 32, r = .x n := by
  cases r with
  | x n => exact ⟨n, rfl⟩
  | pc => exact absurd named (general_of_encode encoded)

theorem decode_of_encode {i : Instruction} {word : Word} (encoded : i.encode = .ok word) :
    decode word = .ok i := by
  obtain ⟨other, run, read⟩ := encode_of_general (general_of_encode encoded)
  rw [encoded] at run
  cases run
  exact read

theorem encode_injective {i j : Instruction} {word : Word} (first : i.encode = .ok word)
    (second : j.encode = .ok word) : i = j := by
  have same := (decode_of_encode first).symm.trans (decode_of_encode second)
  cases same
  rfl

/-- Encoding can be undone, and refuses exactly what has no place in a word. -/
theorem decode_inverts_encode :
    (∀ i : Instruction, .pc ∉ i.registers → ∃ word, i.encode = .ok word ∧ decode word = .ok i) ∧
    (∀ i : Instruction, .pc ∈ i.registers → i.encode = .error .programCounter) ∧
    ∀ i j : Instruction, .pc ∉ i.registers → .pc ∉ j.registers → i.encode = j.encode → i = j := by
  refine ⟨fun i => encode_of_general, fun i => encode_of_programCounter, ?_⟩
  intro i j general _ same
  obtain ⟨word, encoded, _⟩ := encode_of_general general
  exact encode_injective encoded (same.symm.trans encoded)

theorem decode_inverts_encode_store_and_jump :
    (.pc ∉ (sw (.x 7) ⟨0x800#12⟩ (.x 31)).registers ∧
      ∃ word, (sw (.x 7) ⟨0x800#12⟩ (.x 31)).encode = .ok word ∧
        decode word = .ok (sw (.x 7) ⟨0x800#12⟩ (.x 31))) ∧
    (.pc ∈ (jal .pc ⟨0#20⟩).registers ∧ (jal .pc ⟨0#20⟩).encode = .error .programCounter) ∧
    (addi (.x 1) (.x 0) ⟨0xFFF#12⟩).encode ≠ (slti (.x 1) (.x 0) ⟨0xFFF#12⟩).encode := by
  refine ⟨⟨by decide, decode_inverts_encode.1 _ (by decide)⟩,
    ⟨by decide, decode_inverts_encode.2.1 _ (by decide)⟩, ?_⟩
  intro same
  cases decode_inverts_encode.2.2 _ _ (by decide) (by decide) same

end Instruction

end WordMachine
