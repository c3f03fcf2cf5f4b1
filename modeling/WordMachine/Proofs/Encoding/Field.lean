import Mathlib.Algebra.Group.Nat.Defs
import WordMachine.Encoding.Field

/-!
Fields bit by bit. A field of `width` bits at `offset` ends at bit `32 - offset - width`, so filling
the fields of a word from the most significant one down leaves, after each, a word that is complete
from some bit up and zero below it. The lemmas on packing say what one such step does.
-/

namespace WordMachine

def clearLow (count : Nat) (word : Word) : Word := (word >>> count) <<< count

def ZeroBelow (high : Nat) (word : Word) : Prop := ∀ i, i < high → word.getLsbD i = false

def AgreeFrom (low : Nat) (a b : Word) : Prop := ∀ i, low ≤ i → a.getLsbD i = b.getLsbD i

theorem getLsbD_clearLow (count : Nat) (word : Word) (i : Nat) :
    (clearLow count word).getLsbD i = (decide (count ≤ i) && word.getLsbD i) := by
  simp only [clearLow, BitVec.getLsbD_shiftLeft, BitVec.getLsbD_ushiftRight]
  by_cases low : i < count
  · simp [low, Nat.not_le.mpr low]
  · have whole : count + (i - count) = i := by omega
    by_cases inside : i < 32
    · simp [low, inside, whole, Nat.not_lt.mp low]
    · simp [inside, Nat.not_lt.mp inside]

theorem clearLow_eq_iff {count : Nat} {a b : Word} :
    clearLow count a = clearLow count b ↔ AgreeFrom count a b := by
  constructor
  · intro same i above
    have bit := congrArg (BitVec.getLsbD · i) same
    simpa [getLsbD_clearLow, above] using bit
  · intro agree
    apply BitVec.eq_of_getLsbD_eq
    intro i _
    by_cases above : count ≤ i
    · simp [getLsbD_clearLow, above, agree i above]
    · simp [getLsbD_clearLow, above]

theorem AgreeFrom.trans {low : Nat} {a b c : Word} (ab : AgreeFrom low a b)
    (bc : AgreeFrom low b c) : AgreeFrom low a c := fun i above => (ab i above).trans (bc i above)

theorem AgreeFrom.mono {low high : Nat} {a b : Word} (agree : AgreeFrom low a b)
    (le : low ≤ high) : AgreeFrom high a b := fun i above => agree i (Nat.le_trans le above)

namespace Field
variable {α β : Type}

def bitsAt (width offset : Nat) (word : Word) : Word :=
  (word >>> (wordBits - offset - width)) &&& lowMask width

def placed (width offset : Nat) (bits : Word) : Word :=
  (bits &&& lowMask width) <<< (wordBits - offset - width)

theorem getLsbD_bitsAt (width offset : Nat) (word : Word) (i : Nat) (inside : i < 32) :
    (bitsAt width offset word).getLsbD i =
      (decide (i < width) && word.getLsbD (32 - offset - width + i)) := by
  simp only [bitsAt, wordBits, BitVec.getLsbD_and, BitVec.getLsbD_ushiftRight,
    getLsbD_lowMask width i inside]
  exact Bool.and_comm _ _

theorem getLsbD_placed (width offset : Nat) (bits : Word) (i : Nat) (inside : i < 32) :
    (placed width offset bits).getLsbD i =
      (decide (32 - offset - width ≤ i) && decide (i < 32 - offset - width + width) &&
        bits.getLsbD (i - (32 - offset - width))) := by
  have shifted : i - (32 - offset - width) < 32 := by omega
  simp only [placed, wordBits, BitVec.getLsbD_shiftLeft, BitVec.getLsbD_and,
    getLsbD_lowMask width _ shifted, inside, decide_true, Bool.true_and]
  by_cases above : 32 - offset - width ≤ i
  · have same : (i - (32 - offset - width) < width) ↔ i < 32 - offset - width + width := by omega
    simp [above, Nat.not_lt.mpr above, same, Bool.and_comm]
  · simp [above, Nat.not_le.mp above]

theorem read_eq (f : Field α) (word : Word) (offset : Nat) :
    f.read word offset = f.ofBits (bitsAt f.width offset word) := rfl

theorem pack_eq_ok_iff {f : Field α} {word packed : Word} {offset : Nat} {value : α} :
    f.pack word offset value = .ok packed ↔
      ∃ bits, f.toBits value = .ok bits ∧ offset + f.width ≤ 32 ∧
        packed = word ||| placed f.width offset bits := by
  simp only [pack, checkFits, wordBits]
  cases f.toBits value with
  | error error => simp [bind, Except.bind]
  | ok bits =>
    by_cases fits : offset + f.width ≤ 32
    · simp [bind, Except.bind, pure, Except.pure, placed, wordBits, fits, eq_comm]
    · simp [bind, Except.bind, fits]

theorem pack_eq_error {f : Field α} {offset : Nat} {value : α} {error : EncodingError}
    (refused : f.toBits value = .error error) (word : Word) :
    f.pack word offset value = .error error := by
  simp [pack, refused, bind, Except.bind]

theorem bitsAt_congr {width offset : Nat} {a b : Word}
    (agree : AgreeFrom (32 - offset - width) a b) :
    bitsAt width offset a = bitsAt width offset b := by
  apply BitVec.eq_of_getLsbD_eq
  intro i inside
  rw [getLsbD_bitsAt _ _ _ _ inside, getLsbD_bitsAt _ _ _ _ inside, agree _ (Nat.le_add_right _ i)]

theorem read_congr (f : Field α) {a b : Word} {offset : Nat}
    (agree : AgreeFrom (32 - offset - f.width) a b) : f.read a offset = f.read b offset := by
  rw [read_eq, read_eq, bitsAt_congr agree]

theorem bitsAt_placed {width offset : Nat} {word : Word} (bits : Word)
    (fits : offset + width ≤ 32)
    (vacant : ∀ i, 32 - offset - width ≤ i → i < 32 - offset → word.getLsbD i = false) :
    bitsAt width offset (word ||| placed width offset bits) = bits &&& lowMask width := by
  apply BitVec.eq_of_getLsbD_eq
  intro i inside
  simp only [BitVec.getLsbD_and, getLsbD_lowMask width i inside, getLsbD_bitsAt _ _ _ _ inside]
  by_cases within : i < width
  · have place : 32 - offset - width + i < 32 := by omega
    have free := vacant (32 - offset - width + i) (Nat.le_add_right _ i) (by omega)
    simp [getLsbD_placed _ _ _ _ place, free, within]
  · simp [within]

theorem placed_agree (width offset : Nat) (word bits : Word) (fits : offset + width ≤ 32) :
    AgreeFrom (32 - offset) (word ||| placed width offset bits) word := by
  intro i above
  by_cases inside : i < 32
  · have outside : ¬ i < 32 - offset - width + width := by omega
    simp [getLsbD_placed _ _ _ _ inside, outside]
  · simp [Nat.not_lt.mp inside]

theorem zeroBelow_placed {width offset : Nat} {word : Word} (bits : Word)
    (vacant : ZeroBelow (32 - offset) word) :
    ZeroBelow (32 - offset - width) (word ||| placed width offset bits) := by
  intro i low
  simp [getLsbD_placed _ _ _ _ (show i < 32 by omega), vacant i (by omega), Nat.not_le.mpr low]

theorem clearLow_or_placed {width offset : Nat} {word bits : Word} (fits : offset + width ≤ 32)
    (same : bits &&& lowMask width = bitsAt width offset word) :
    clearLow (32 - offset) word ||| placed width offset bits =
      clearLow (32 - offset - width) word := by
  apply BitVec.eq_of_getLsbD_eq
  intro i inside
  have bit : ∀ k, k < width → bits.getLsbD k = word.getLsbD (32 - offset - width + k) := by
    intro k within
    have both := congrArg (BitVec.getLsbD · k) same
    have low : k < 32 := by omega
    simpa [getLsbD_lowMask width k low, getLsbD_bitsAt _ _ _ _ low, within] using both
  simp only [BitVec.getLsbD_or, getLsbD_clearLow, getLsbD_placed _ _ _ _ inside]
  by_cases above : 32 - offset ≤ i
  · have outside : ¬ i < 32 - offset - width + width := by omega
    simp [above, outside, show 32 - offset - width ≤ i by omega]
  · by_cases reached : 32 - offset - width ≤ i
    · have place : 32 - offset - width + (i - (32 - offset - width)) = i := by omega
      simp [above, reached, bit _ (show i - (32 - offset - width) < width by omega), place,
        show i < 32 - offset - width + width by omega]
    · simp [above, reached]

/-- A value that has bits is read back from them, and every pattern of bits is that of a value. -/
structure Lawful (f : Field α) : Prop where
  ofBits_toBits : ∀ {value bits}, f.toBits value = .ok bits →
    f.ofBits (bits &&& lowMask f.width) = value
  toBits_ofBits : ∀ word, ∃ bits, f.toBits (f.ofBits (word &&& lowMask f.width)) = .ok bits ∧
    bits &&& lowMask f.width = word &&& lowMask f.width

/-- One step of building a word from the top: the value can be read from its field, the fields
    above are as they were, and there is still nothing below. -/
theorem pack_next {f : Field α} (lawful : f.Lawful) {word bits : Word} {offset : Nat} {value : α}
    (encoded : f.toBits value = .ok bits) (fits : offset + f.width ≤ 32)
    (vacant : ZeroBelow (32 - offset) word) :
    ∃ packed, f.pack word offset value = .ok packed ∧ f.read packed offset = value ∧
      AgreeFrom (32 - offset) packed word ∧ ZeroBelow (32 - (offset + f.width)) packed := by
  refine ⟨_, pack_eq_ok_iff.mpr ⟨bits, encoded, fits, rfl⟩, ?_, ?_, ?_⟩
  · rw [read_eq, bitsAt_placed bits fits fun i _ => vacant i]
    exact lawful.ofBits_toBits encoded
  · exact placed_agree _ _ _ _ fits
  · rw [Nat.sub_add_eq]
    exact zeroBelow_placed _ vacant

theorem pack_read {f : Field α} (lawful : f.Lawful) {word : Word} {offset : Nat}
    (fits : offset + f.width ≤ 32) :
    f.pack (clearLow (32 - offset) word) offset (f.read word offset) =
      .ok (clearLow (32 - (offset + f.width)) word) := by
  rw [Nat.sub_add_eq]
  obtain ⟨bits, encoded, same⟩ := lawful.toBits_ofBits (word >>> (wordBits - offset - f.width))
  refine pack_eq_ok_iff.mpr ⟨bits, encoded, fits, ?_⟩
  exact (clearLow_or_placed fits same).symm

theorem and_lowMask (word : Word) (width : Nat) :
    word &&& lowMask width = (word.setWidth width).setWidth 32 := by
  apply BitVec.eq_of_getLsbD_eq
  intro i inside
  simp only [BitVec.getLsbD_and, BitVec.getLsbD_setWidth, getLsbD_lowMask width i inside, inside,
    decide_true, Bool.true_and]
  exact Bool.and_comm _ _

theorem toNat_bitsAt {width : Nat} (le : width ≤ 32) (offset : Nat) (word : Word) :
    (bitsAt width offset word).toNat = word.toNat / 2 ^ (32 - offset - width) % 2 ^ width := by
  rw [bitsAt, wordBits, and_lowMask, BitVec.toNat_setWidth_of_le le, BitVec.toNat_setWidth,
    BitVec.toNat_ushiftRight, Nat.shiftRight_eq_div_pow]

theorem toNat_and_lowMask_lt (word : Word) (width : Nat) :
    (word &&& lowMask width).toNat < 2 ^ width := by
  rw [and_lowMask, BitVec.toNat_setWidth]
  exact Nat.lt_of_le_of_lt (Nat.mod_le _ _) (word.setWidth width).isLt

theorem ofNat_and_lowMask {n width : Nat} (small : n < 2 ^ width) :
    BitVec.ofNat 32 n &&& lowMask width = BitVec.ofNat 32 n := by
  apply BitVec.eq_of_getLsbD_eq
  intro i inside
  by_cases low : i < width
  · simp [getLsbD_lowMask width i inside, low]
  · have beyond : n < 2 ^ i :=
      Nat.lt_of_lt_of_le small (Nat.pow_le_pow_right (by decide) (by omega))
    simp [BitVec.getLsbD_ofNat, Nat.testBit_lt_two_pow beyond]

theorem register_lawful : register.Lawful where
  ofBits_toBits := by
    intro value bits encoded
    cases value with
    | pc => cases encoded
    | x number =>
      cases encoded
      have small := number.isLt
      have kept : BitVec.ofNat 32 number &&& lowMask 5 = BitVec.ofNat 32 number :=
        ofNat_and_lowMask small
      simp only [register, kept, BitVec.toNat_ofNat]
      congr 2
      omega
  toBits_ofBits := by
    intro word
    have small : (word &&& lowMask 5).toNat < 32 := toNat_and_lowMask_lt word 5
    refine ⟨_, rfl, ?_⟩
    simp only [register, Nat.mod_eq_of_lt small, BitVec.ofNat_toNat, BitVec.setWidth_eq,
      BitVec.and_assoc, BitVec.and_self]

theorem funct_lawful : funct.Lawful where
  ofBits_toBits := by
    intro value bits encoded
    simp only [funct] at encoded
    split at encoded
    · rename_i small
      cases encoded
      have kept : BitVec.ofNat 32 value.code &&& lowMask 3 = BitVec.ofNat 32 value.code :=
        ofNat_and_lowMask small
      simp only [funct, kept, BitVec.toNat_ofNat]
      congr 1
      omega
    · cases encoded
  toBits_ofBits := by
    intro word
    have small : (word &&& lowMask 3).toNat < 8 := toNat_and_lowMask_lt word 3
    refine ⟨word &&& lowMask 3, ?_, ?_⟩
    · simp only [funct, small, ↓reduceIte, BitVec.ofNat_toNat, BitVec.setWidth_eq]
    · simp only [funct, BitVec.and_assoc, BitVec.and_self]

theorem imm_lawful {width : Nat} (le : width ≤ 32) : (imm width).Lawful where
  ofBits_toBits := by
    intro value bits encoded
    cases encoded
    obtain ⟨bits⟩ := value
    simp only [imm, Imm.ofWord, Imm.toWord, and_lowMask]
    congr 1
    apply BitVec.eq_of_getLsbD_eq
    intro i inside
    simp only [BitVec.getLsbD_setWidth, BitVec.getLsbD_signExtend, inside,
      show i < 32 by omega, decide_true, Bool.true_and, ↓reduceIte]
  toBits_ofBits := by
    intro word
    refine ⟨_, rfl, ?_⟩
    simp only [imm, Imm.ofWord, Imm.toWord, and_lowMask]
    apply BitVec.eq_of_getLsbD_eq
    intro i inside
    by_cases low : i < width
    · simp only [BitVec.getLsbD_setWidth, BitVec.getLsbD_signExtend, low, inside, decide_true,
        Bool.true_and, ↓reduceIte]
    · simp only [BitVec.getLsbD_setWidth, low, decide_false, Bool.false_and, Bool.and_false]

end Field

end WordMachine
