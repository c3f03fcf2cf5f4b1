import WordMachine.Proofs.Encoding.Field

/-!
Fields of every kind, anywhere in a word. A field that is packed changes bits of its own alone and
one that is unpacked depends on bits of its own alone, so fields that share no bit know nothing of
each other.
-/

namespace WordMachine

namespace Field

def Covers (width offset i : Nat) : Prop := 32 - offset - width ≤ i ∧ i < 32 - offset

instance (width offset i : Nat) : Decidable (Covers width offset i) :=
  inferInstanceAs (Decidable (32 - offset - width ≤ i ∧ i < 32 - offset))

inductive Kind where
  | register
  | funct
  | imm12
  | imm20
  | raw (width : Nat) (positive : 1 ≤ width) (le : width ≤ 32)

namespace Kind

abbrev Value : Kind → Type
  | .register => Register
  | .funct => Funct
  | .imm12 => Imm 12
  | .imm20 => Imm 20
  | .raw .. => Word

def field : (kind : Kind) → Field kind.Value
  | .register => Field.register
  | .funct => Field.funct
  | .imm12 => Field.imm 12
  | .imm20 => Field.imm 20
  | .raw width _ _ => Field.raw width

def width (kind : Kind) : Nat := kind.field.width

/-- What of a value its field can hold. Nothing but bare bits can be too large for it. -/
def kept : (kind : Kind) → kind.Value → kind.Value
  | .register, r => r
  | .funct, f => f
  | .imm12, i => i
  | .imm20, i => i
  | .raw width _ _, bits => BitVec.ofNat 32 (bits.toNat % 2 ^ width)

/-- The value of some bits, where numbers are kept in a byte and that of a register is checked. -/
def convert : (kind : Kind) → Word → Except EncodingError kind.Value
  | .register, bits => Register.general (bits.toNat % 2 ^ 8)
  | .funct, bits => .ok ⟨bits.toNat % 2 ^ 8⟩
  | .imm12, bits => .ok (Imm.ofWord 12 bits)
  | .imm20, bits => .ok (Imm.ofWord 20 bits)
  | .raw .., bits => .ok bits

def unpack (kind : Kind) (word : Word) (offset : Nat) : Except EncodingError kind.Value := do
  checkFits kind.width offset
  kind.convert (bitsAt kind.width offset word)

end Kind

section
variable {width offset : Nat}

theorem getLsbD_or_placed (word bits : Word) (fits : offset + width ≤ 32) (i : Nat) :
    (word ||| placed width offset bits).getLsbD i =
      if Covers width offset i then word.getLsbD i || bits.getLsbD (i - (32 - offset - width))
      else word.getLsbD i := by
  by_cases inside : i < 32
  · have upper : i < 32 - offset - width + width ↔ i < 32 - offset := by omega
    rw [BitVec.getLsbD_or, getLsbD_placed _ _ _ _ inside]
    by_cases covered : Covers width offset i
    · simp [covered, covered.1, upper.mpr covered.2]
    · rw [if_neg covered]
      rcases Classical.not_and_iff_not_or_not.mp covered with below | above
      · simp [below]
      · simp [mt upper.mp above]
  · have outside : ¬ Covers width offset i := fun covered => inside (by have := covered.2; omega)
    rw [if_neg outside, BitVec.getLsbD_of_ge _ _ (Nat.not_lt.mp inside),
      BitVec.getLsbD_of_ge _ _ (Nat.not_lt.mp inside)]

theorem bitsAt_of_covered {a b : Word} (fits : offset + width ≤ 32)
    (same : ∀ i, Covers width offset i → a.getLsbD i = b.getLsbD i) :
    bitsAt width offset a = bitsAt width offset b := by
  apply BitVec.eq_of_getLsbD_eq
  intro i inside
  rw [getLsbD_bitsAt _ _ _ _ inside, getLsbD_bitsAt _ _ _ _ inside]
  by_cases within : i < width
  · rw [same _ ⟨Nat.le_add_right _ i, by omega⟩]
  · simp [within]

end

section
variable {α β : Type}

theorem unpack_eq (f : Field α) (word : Word) (offset : Nat) :
    f.unpack word offset =
      if offset + f.width ≤ 32 then .ok (f.ofBits (bitsAt f.width offset word))
      else .error (.fieldOverrun f.width offset) := by
  rw [unpack, checkFits, wordBits]
  split <;> rfl

theorem pack_of_overrun {f : Field α} {offset : Nat} {value : α} {bits : Word}
    (encoded : f.toBits value = .ok bits) (word : Word) (overrun : 32 < offset + f.width) :
    f.pack word offset value = .error (.fieldOverrun f.width offset) := by
  simp [pack, checkFits, encoded, wordBits, Nat.not_le.mpr overrun, bind, Except.bind]

theorem pack_pack_eq_ok_iff {f : Field α} {g : Field β} {word result : Word} {offset place : Nat}
    {first : α} {second : β} :
    (f.pack word offset first >>= fun packed => g.pack packed place second) = .ok result ↔
      ∃ low high, f.toBits first = .ok low ∧ g.toBits second = .ok high ∧
        offset + f.width ≤ 32 ∧ place + g.width ≤ 32 ∧
        result = word ||| placed f.width offset low ||| placed g.width place high := by
  constructor
  · intro both
    cases packed : f.pack word offset first with
    | error error =>
      rw [packed] at both
      cases both
    | ok middle =>
      rw [packed] at both
      obtain ⟨low, encoded, fits, rfl⟩ := pack_eq_ok_iff.mp packed
      obtain ⟨high, alsoEncoded, alsoFits, rfl⟩ := pack_eq_ok_iff.mp both
      exact ⟨low, high, encoded, alsoEncoded, fits, alsoFits, rfl⟩
  · rintro ⟨low, high, encoded, alsoEncoded, fits, alsoFits, rfl⟩
    rw [pack_eq_ok_iff.mpr ⟨low, encoded, fits, rfl⟩]
    exact pack_eq_ok_iff.mpr ⟨high, alsoEncoded, alsoFits, rfl⟩

theorem pack_pack_comm (f : Field α) (g : Field β) (word result : Word) (offset place : Nat)
    (first : α) (second : β) :
    (f.pack word offset first >>= fun packed => g.pack packed place second) = .ok result ↔
      (g.pack word place second >>= fun packed => f.pack packed offset first) = .ok result := by
  rw [pack_pack_eq_ok_iff, pack_pack_eq_ok_iff]
  constructor
  · rintro ⟨low, high, encoded, alsoEncoded, fits, alsoFits, rfl⟩
    exact ⟨high, low, alsoEncoded, encoded, alsoFits, fits, by ac_rfl⟩
  · rintro ⟨high, low, alsoEncoded, encoded, alsoFits, fits, rfl⟩
    exact ⟨low, high, encoded, alsoEncoded, fits, alsoFits, by ac_rfl⟩

theorem unpack_of_pack_apart {f : Field α} {word packed : Word} {offset : Nat} {value : α}
    (run : f.pack word offset value = .ok packed) (g : Field β) {place : Nat}
    (apart : offset + f.width ≤ place ∨ place + g.width ≤ offset) :
    g.unpack packed place = g.unpack word place := by
  obtain ⟨bits, -, fits, rfl⟩ := pack_eq_ok_iff.mp run
  rw [unpack_eq, unpack_eq]
  by_cases alsoFits : place + g.width ≤ 32
  · rw [bitsAt_of_covered alsoFits]
    intro i covered
    rw [getLsbD_or_placed word bits fits, if_neg]
    intro shared
    have := covered.1; have := covered.2; have := shared.1; have := shared.2
    omega
  · rw [if_neg alsoFits, if_neg alsoFits]

end

namespace Kind

theorem toNat_and_lowMask_mod_byte (bits : Word) {width : Nat} (le : width ≤ 8) :
    (bits &&& lowMask width).toNat % 2 ^ 8 = (bits &&& lowMask width).toNat := by
  have bound : 2 ^ width ≤ 2 ^ 8 := Nat.pow_le_pow_right (by decide) le
  exact Nat.mod_eq_of_lt (Nat.lt_of_lt_of_le (toNat_and_lowMask_lt bits width) bound)

/-- The bits of a field are few enough for its value, so no check of the value can fail. -/
theorem convert_and_lowMask (kind : Kind) (bits : Word) :
    kind.convert (bits &&& lowMask kind.width) =
      .ok (kind.field.ofBits (bits &&& lowMask kind.width)) := by
  cases kind with
  | register =>
    have small : (bits &&& lowMask 5).toNat < 32 := toNat_and_lowMask_lt bits 5
    have byte := toNat_and_lowMask_mod_byte bits (show 5 ≤ 8 by decide)
    simp only [convert, width, field, Field.register, byte, Register.general, small, ↓reduceDIte,
      Nat.mod_eq_of_lt small]
  | funct =>
    have byte := toNat_and_lowMask_mod_byte bits (show 3 ≤ 8 by decide)
    simp only [convert, width, field, Field.funct, byte]
  | imm12 | imm20 | raw => rfl

theorem unpack_eq_unpack (kind : Kind) (word : Word) (offset : Nat) :
    kind.unpack word offset = kind.field.unpack word offset := by
  rw [Field.unpack_eq, unpack, checkFits, wordBits, width]
  by_cases fits : offset + kind.field.width ≤ 32
  · rw [if_pos fits, if_pos fits]
    exact kind.convert_and_lowMask _
  · rw [if_neg fits, if_neg fits]
    rfl

theorem ofBits_of_toBits {kind : Kind} {value : kind.Value} {bits : Word}
    (encoded : kind.field.toBits value = .ok bits) :
    kind.field.ofBits (bits &&& lowMask kind.width) = kind.kept value := by
  cases kind with
  | register => exact register_lawful.ofBits_toBits encoded
  | funct => exact funct_lawful.ofBits_toBits encoded
  | imm12 | imm20 => exact (imm_lawful (by decide)).ofBits_toBits encoded
  | raw width _ le =>
    cases encoded
    change bits &&& lowMask width = BitVec.ofNat 32 (bits.toNat % 2 ^ width)
    rw [and_lowMask]
    apply BitVec.eq_of_toNat_eq
    rw [BitVec.toNat_setWidth_of_le le, BitVec.toNat_setWidth, BitVec.toNat_ofNat,
      Nat.mod_eq_of_lt (Nat.lt_of_le_of_lt (Nat.mod_le _ _) bits.isLt)]

theorem unpack_pack {kind : Kind} {word bits : Word} {offset : Nat} {value : kind.Value}
    (encoded : kind.field.toBits value = .ok bits) (fits : offset + kind.width ≤ 32)
    (vacant : ∀ i, Covers kind.width offset i → word.getLsbD i = false) :
    kind.unpack (word ||| placed kind.width offset bits) offset = .ok (kind.kept value) := by
  rw [unpack_eq_unpack, Field.unpack_eq]
  change (if offset + kind.width ≤ 32 then _ else _) = _
  rw [if_pos fits, ← ofBits_of_toBits encoded]
  have own : bitsAt kind.width offset (word ||| placed kind.width offset bits) =
      bits &&& lowMask kind.width :=
    bitsAt_placed bits fits fun i above below => vacant i ⟨above, below⟩
  exact congrArg (fun low => Except.ok (kind.field.ofBits low)) own

/-- A field that sticks out of the word is neither packed nor unpacked. Any other is unpacked
    whatever the word holds, and packing lays its bits over the bits at its place and leaves the
    rest, so a value comes back from where there was nothing before. Of fields that share no bit,
    neither the order nor what the other holds matters. -/
theorem field_keeps_to_its_bits (kind : Kind) (word : Word) (offset : Nat) :
    kind.unpack word offset = kind.field.unpack word offset ∧
    (32 < offset + kind.width →
      kind.unpack word offset = .error (.fieldOverrun kind.width offset) ∧
      ∀ value bits, kind.field.toBits value = .ok bits →
        kind.field.pack word offset value = .error (.fieldOverrun kind.width offset)) ∧
    (offset + kind.width ≤ 32 →
      (∃ value, kind.unpack word offset = .ok value) ∧
      ∀ value bits, kind.field.toBits value = .ok bits →
        ∃ packed, kind.field.pack word offset value = .ok packed ∧
          (∀ i, ¬ Covers kind.width offset i → packed.getLsbD i = word.getLsbD i) ∧
          (∀ i, Covers kind.width offset i → packed.getLsbD i =
            (word.getLsbD i || bits.getLsbD (i - (32 - offset - kind.width)))) ∧
          ((∀ i, Covers kind.width offset i → word.getLsbD i = false) →
            kind.unpack packed offset = .ok (kind.kept value))) ∧
    ∀ (other : Kind) (place : Nat),
      offset + kind.width ≤ place ∨ place + other.width ≤ offset →
        (∀ first second result,
          (kind.field.pack word offset first >>= (other.field.pack · place second)) = .ok result ↔
          (other.field.pack word place second >>= (kind.field.pack · offset first)) = .ok result) ∧
        ∀ value packed, kind.field.pack word offset value = .ok packed →
          other.unpack packed place = other.unpack word place := by
  refine ⟨kind.unpack_eq_unpack word offset, fun overrun => ⟨?_, ?_⟩, fun fits => ⟨?_, ?_⟩, ?_⟩
  · rw [unpack_eq_unpack, Field.unpack_eq]
    exact if_neg (Nat.not_le.mpr overrun)
  · intro value bits encoded
    exact pack_of_overrun encoded word overrun
  · rw [unpack_eq_unpack, Field.unpack_eq]
    exact ⟨_, if_pos fits⟩
  · intro value bits encoded
    refine ⟨_, pack_eq_ok_iff.mpr ⟨bits, encoded, fits, rfl⟩, ?_, ?_, unpack_pack encoded fits⟩
    · intro i outside
      exact (getLsbD_or_placed word bits fits i).trans (if_neg outside)
    · intro i covered
      exact (getLsbD_or_placed word bits fits i).trans (if_pos covered)
  · intro other place apart
    refine ⟨fun first second result => pack_pack_comm .., fun value packed run => ?_⟩
    rw [unpack_eq_unpack, unpack_eq_unpack]
    exact unpack_of_pack_apart run other.field apart

theorem field_keeps_to_its_bits_negative_beside_others :
    (∃ packed, Kind.imm12.field.pack 0xFF000007 17 ⟨-1⟩ = .ok packed ∧
      Kind.imm12.unpack packed 17 = .ok ⟨-1⟩ ∧
      Kind.register.unpack packed 7 = Kind.register.unpack 0xFF000007 7) ∧
    (∃ packed, (Kind.raw 8 (by decide) (by decide)).field.pack 0 24 0x1FF = .ok packed ∧
      (Kind.raw 8 (by decide) (by decide)).unpack packed 24 = .ok (0xFF : Word)) ∧
    Kind.register.unpack 0 28 = .error (.fieldOverrun 5 28) := by
  obtain ⟨-, -, inside, others⟩ := field_keeps_to_its_bits .imm12 0xFF000007 17
  obtain ⟨packed, run, -, -, back⟩ := (inside (by decide)).2 ⟨-1⟩ _ rfl
  have vacant : ∀ i < 15, 3 ≤ i → (0xFF000007 : Word).getLsbD i = false := by decide
  obtain ⟨-, -, alsoInside, -⟩ := field_keeps_to_its_bits (.raw 8 (by decide) (by decide)) 0 24
  obtain ⟨cut, cutRun, -, -, cutBack⟩ := (alsoInside (by decide)).2 0x1FF _ rfl
  refine ⟨⟨packed, run, back fun i covered => vacant i covered.2 covered.1, ?_⟩,
    ⟨cut, cutRun, cutBack fun i _ => BitVec.getLsbD_zero⟩, ?_⟩
  · exact (others .register 7 (Or.inr (by decide))).2 _ _ run
  · exact ((field_keeps_to_its_bits .register 0 28).2.1 (by decide)).1

end Kind

end Field

end WordMachine
