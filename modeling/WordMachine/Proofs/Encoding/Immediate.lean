import Mathlib.Algebra.Group.Int.Defs
import WordMachine.Proofs.Encoding.Field

/-!
The range of an immediate, and sign extension as arithmetic. Moving bits to the top of a word and
back leaves the number that they are in two's complement, so an immediate that is read off a word
has a value that immediates can have, and immediates and bit patterns correspond one to one.
-/

namespace WordMachine

namespace Imm
variable {width : Nat}

theorem least_le_value (imm : Imm width) : least width ≤ imm.value := by
  have below := BitVec.le_toInt imm.bits
  simpa [least, value] using below

theorem value_le_greatest (imm : Imm width) : imm.value ≤ greatest width := by
  have above := BitVec.toInt_lt (x := imm.bits)
  simp only [greatest, value, Nat.pow_eq, Int.natCast_pow, Int.cast_ofNat_Int]
  omega

theorem ofInt?_value (imm : Imm width) : ofInt? width imm.value = some imm := by
  rw [ofInt?, if_pos ⟨imm.least_le_value, imm.value_le_greatest⟩, value, BitVec.ofInt_toInt]

theorem ofInt?_eq_none_iff {value : Int} :
    ofInt? width value = none ↔ value < -2 ^ (width - 1) ∨ 2 ^ (width - 1) ≤ value := by
  have power : ((Nat.pow 2 (width - 1) : Nat) : Int) = 2 ^ (width - 1) := Int.natCast_pow 2 _
  rw [ofInt?, least, greatest, power]
  by_cases inside : -(2 : Int) ^ (width - 1) ≤ value ∧ value ≤ 2 ^ (width - 1) - 1
  · simp only [inside, and_self, if_true, reduceCtorEq, false_iff]
    omega
  · simp only [inside, if_false, true_iff]
    omega

theorem value_of_ofInt? {value : Int} {imm : Imm width} (positive : 0 < width)
    (found : ofInt? width value = some imm) : imm.value = value := by
  rw [ofInt?] at found
  split at found
  · rename_i inside
    cases found
    obtain ⟨below, above⟩ := inside
    cases width with
    | zero => contradiction
    | succ k =>
      simp only [least, greatest, Nat.add_sub_cancel, Nat.pow_eq] at below above
      rw [Imm.value, BitVec.toInt_ofInt]
      apply Int.bmod_eq_of_le
      · rw [Nat.pow_succ]
        omega
      · rw [Nat.pow_succ]
        omega
  · cases found

theorem toWord_eq (imm : Imm width) : imm.toWord = BitVec.ofInt 32 imm.value := rfl

theorem toInt_toWord (bound : width ≤ 32) (imm : Imm width) : imm.toWord.toInt = imm.value :=
  BitVec.toInt_signExtend_of_le bound

end Imm

theorem sshiftRight_shiftLeft (bits : Word) {width : Nat} (le : width ≤ 32) :
    (bits <<< (32 - width)).sshiftRight (32 - width) = (bits.setWidth width).signExtend 32 := by
  apply BitVec.eq_of_getLsbD_eq
  intro i inside
  simp only [BitVec.getLsbD_sshiftRight, BitVec.getLsbD_signExtend, BitVec.msb_eq_getLsbD_last,
    BitVec.getLsbD_shiftLeft, BitVec.getLsbD_setWidth, inside, Nat.not_le.mpr inside]
  by_cases low : i < width
  · have place : 32 - width + i - (32 - width) = i := by omega
    simp [low, show 32 - width + i < 32 by omega, place]
  · have last : 32 - 1 - (32 - width) = width - 1 := by omega
    simp only [low, show ¬ 32 - width + i < 32 by omega, last]
    rcases Nat.eq_zero_or_pos width with rfl | positive
    · simp
    · simp [show ¬ 31 < 32 - width by omega, show width - 1 < width by omega]

theorem signExtend_eq_value (bits : Word) {width : Nat} (le : width ≤ 32) :
    signExtend bits width = (Imm.ofWord width bits).value := by
  rw [signExtend, sshiftRight_shiftLeft bits le, BitVec.toInt_signExtend_of_le le]
  rfl

theorem signExtend_emod (bits : Word) {width : Nat} (le : width ≤ 32) :
    signExtend bits width % 2 ^ width = (bits.toNat : Int) % 2 ^ width := by
  rw [signExtend_eq_value bits le, Imm.value, Imm.ofWord, BitVec.toInt_setWidth]
  have power : (2 : Int) ^ width = ((2 ^ width : Nat) : Int) := (Int.natCast_pow 2 width).symm
  rw [power, Int.bmod_emod]

theorem signExtend_eq_iff (a b : Word) {width : Nat} (le : width ≤ 32) :
    signExtend a width = signExtend b width ↔ ∀ i < width, a.getLsbD i = b.getLsbD i := by
  rw [signExtend_eq_value a le, signExtend_eq_value b le, Imm.value, Imm.value, Imm.ofWord,
    Imm.ofWord, BitVec.toInt_inj]
  constructor
  · intro same i low
    have bit := congrArg (BitVec.getLsbD · i) same
    simpa [low] using bit
  · intro same
    apply BitVec.eq_of_getLsbD_eq
    intro i low
    simp [low, same i low]

namespace Imm
variable {width : Nat}

theorem ofWord_and_lowMask (bits : Word) (le : width ≤ 32) :
    ofWord width (bits &&& lowMask width) = ofWord width bits := by
  rw [ofWord, ofWord, Field.and_lowMask, BitVec.setWidth_setWidth_of_le _ le, BitVec.setWidth_eq]

theorem ofWord_toWord (imm : Imm width) (le : width ≤ 32) : ofWord width imm.toWord = imm := by
  rw [← ofWord_and_lowMask _ le]
  exact (Field.imm_lawful le).ofBits_toBits rfl

theorem ofInt?_signExtend (bits : Word) (le : width ≤ 32) :
    ofInt? width (signExtend bits width) = some (ofWord width bits) := by
  rw [signExtend_eq_value bits le, ofInt?_value]

end Imm

theorem signExtend_ofInt_signExtend (bits : Word) {width : Nat} (le : width ≤ 32) :
    signExtend (BitVec.ofInt 32 (signExtend bits width)) width = signExtend bits width := by
  rw [signExtend_eq_value bits le, ← Imm.toWord_eq, signExtend_eq_value _ le,
    Imm.ofWord_toWord _ le]

theorem toInt_ofInt_signExtend (bits : Word) {width held : Nat} (le : width ≤ 32)
    (room : width ≤ held) :
    (BitVec.ofInt held (signExtend bits width)).toInt = signExtend bits width := by
  rw [signExtend_eq_value bits le]
  exact BitVec.toInt_signExtend_of_le room

/-- The extended number lies in the range of its width and is congruent to the word. It depends on
    nothing above the width, and is a fixed point. Through it the immediates of that width and the
    patterns of as many bits correspond one to one. -/
theorem signExtend_reads_twos_complement {width : Nat} (le : width ≤ 32) :
    (∀ bits r, signExtend bits width = r →
      -2 ^ (width - 1) ≤ r ∧ r < 2 ^ (width - 1) ∧ r % 2 ^ width = (bits.toNat : Int) % 2 ^ width ∧
      (∀ other, signExtend other width = r ↔ ∀ i < width, other.getLsbD i = bits.getLsbD i) ∧
      signExtend (BitVec.ofInt 32 r) width = r ∧
      ∀ held, width ≤ held → (BitVec.ofInt held r).toInt = r) ∧
    (∀ bits, Imm.ofInt? width (signExtend bits width) = some ((Field.imm width).ofBits bits)) ∧
    (∀ imm, ∃ bits, (Field.imm width).toBits imm = .ok bits ∧
      (Field.imm width).ofBits (bits &&& lowMask width) = imm) ∧
    ∀ bits, ∃ again, (Field.imm width).toBits ((Field.imm width).ofBits bits) = .ok again ∧
      again &&& lowMask width = bits &&& lowMask width := by
  refine ⟨fun bits => ?_, fun bits => Imm.ofInt?_signExtend bits le, fun imm => ?_, fun bits => ?_⟩
  · rintro _ rfl
    have accepted : Imm.ofInt? width (signExtend bits width) ≠ none := by
      rw [Imm.ofInt?_signExtend bits le]
      exact Option.some_ne_none _
    rw [ne_eq, Imm.ofInt?_eq_none_iff, not_or, Int.not_lt, Int.not_le] at accepted
    exact ⟨accepted.1, accepted.2, signExtend_emod bits le,
      fun other => signExtend_eq_iff other bits le, signExtend_ofInt_signExtend bits le,
      fun _ => toInt_ofInt_signExtend bits le⟩
  · exact ⟨imm.toWord, rfl, (Field.imm_lawful le).ofBits_toBits rfl⟩
  · obtain ⟨again, written, same⟩ := (Field.imm_lawful le).toBits_ofBits bits
    have masked := congrArg (Field.imm width).toBits (Imm.ofWord_and_lowMask bits le)
    exact ⟨again, masked.symm.trans written, same⟩

theorem signExtend_reads_twos_complement_least_and_whole_word :
    (signExtend 0xABCDE800 12 = -2048 ∧ (-2048 : Int) % 2 ^ 12 = 0xABCDE800 % 2 ^ 12 ∧
      signExtend (BitVec.ofInt 32 (-2048)) 12 = -2048 ∧
      Imm.ofInt? 12 (signExtend 0xABCDE800 12) = some ((Field.imm 12).ofBits 0xABCDE800)) ∧
    (∃ bits, (Field.imm 20).toBits ⟨0x80000⟩ = .ok bits ∧
      (Field.imm 20).ofBits (bits &&& lowMask 20) = ⟨0x80000⟩) ∧
    signExtend 0xFFFFFFFF 32 = -1 ∧ (BitVec.ofInt 64 (-1)).toInt = -1 := by
  have short := signExtend_reads_twos_complement (show 12 ≤ 32 by decide)
  have long := signExtend_reads_twos_complement (show 20 ≤ 32 by decide)
  have whole := signExtend_reads_twos_complement (Nat.le_refl 32)
  have least : signExtend 0xABCDE800 12 = -2048 := by decide
  have ones : signExtend 0xFFFFFFFF 32 = -1 := by decide
  obtain ⟨-, -, congruent, -, fixed, -⟩ := short.1 0xABCDE800 (-2048) least
  obtain ⟨-, -, -, -, -, held⟩ := whole.1 0xFFFFFFFF (-1) ones
  exact ⟨⟨least, congruent, fixed, short.2.1 0xABCDE800⟩, long.2.2.1 ⟨0x80000⟩, ones,
    held 64 (by decide)⟩

end WordMachine
