import WordMachine.Proofs.Encoding.Layout

/-!
The five layouts taken together. Each builds words from an opcode and operands and reads them off
again. What a layout builds, or which of its checks stops it, and what it reads are all the same
story about slots, and told once here.
-/

namespace WordMachine

namespace Layout

inductive Kind where
  | r
  | i
  | sb
  | uj
  | legacy
  deriving DecidableEq, Repr

namespace Kind

def shape : Kind → Shape
  | .r => .r
  | .i => .i
  | .sb => .sb
  | .uj => .uj
  | .legacy => .legacy

abbrev Fields : Kind → Type
  | .r => RFields
  | .i => IFields
  | .sb => SBFields
  | .uj => UJFields
  | .legacy => LegacyFields

def encode : (kind : Kind) → Opcode → kind.Fields → Except EncodingError Word
  | .r => RFields.encode
  | .i => IFields.encode
  | .sb => SBFields.encode
  | .uj => UJFields.encode
  | .legacy => LegacyFields.encode

def ofWord : (kind : Kind) → Word → kind.Fields
  | .r => RFields.ofWord
  | .i => IFields.ofWord
  | .sb => SBFields.ofWord
  | .uj => UJFields.ofWord
  | .legacy => LegacyFields.ofWord

def registers : (kind : Kind) → kind.Fields → List Register
  | .r, f => [f.rd, f.rs1, f.rs2]
  | .i, f => [f.rd, f.rs1]
  | .sb, f => [f.rs1, f.rs2]
  | .uj, f => [f.rd]
  | .legacy, f => [f.value, f.base, f.offset]

def funct? : (kind : Kind) → kind.Fields → Option Funct
  | .r, f => some f.funct
  | .i, f => some f.funct
  | .sb, f => some f.funct
  | .uj, _ => none
  | .legacy, _ => none

def reservedBits : Kind → Nat
  | .r => 7
  | .i | .sb | .uj => 0
  | .legacy => 10

/-- What each check finds, in the order in which they are made. Any value of an immediate has its
    place in a word and is not checked. -/
def checks (kind : Kind) (opcode : Opcode) (f : kind.Fields) : List (Option EncodingError) :=
  (if opcode.shape = kind.shape then none else some (.wrongShape opcode kind.shape)) ::
    ((kind.registers f).map fun r => if r = .pc then some .programCounter else none) ++
    (kind.funct? f).toList.map fun funct =>
      if funct.code < 8 then none else some (.functTooWide funct.code)

def slots : (kind : Kind) → kind.Fields → List Slot
  | .r => RFields.slots
  | .i => IFields.slots
  | .sb => SBFields.slots
  | .uj => UJFields.slots
  | .legacy => LegacyFields.slots

theorem encode_of_shape {kind : Kind} {opcode : Opcode} (same : opcode.shape = kind.shape)
    (f : kind.Fields) : kind.encode opcode f = Slot.fill opcode.toWord (kind.slots f) := by
  cases kind with
  | r => exact RFields.encode_eq_fill same f
  | i => exact IFields.encode_eq_fill same f
  | sb => exact SBFields.encode_eq_fill same f
  | uj => exact UJFields.encode_eq_fill same f
  | legacy => exact LegacyFields.encode_eq_fill same f

theorem encode_of_other_shape {kind : Kind} {opcode : Opcode} (other : opcode.shape ≠ kind.shape)
    (f : kind.Fields) : kind.encode opcode f = .error (.wrongShape opcode kind.shape) := by
  have refused : checkShape opcode kind.shape = .error (.wrongShape opcode kind.shape) :=
    if_neg other
  cases kind with
  | r | i | sb | uj | legacy => exact congrArg (· >>= _) refused

theorem tiled (kind : Kind) (f : kind.Fields) : Slot.Tiled firstAt (kind.slots f) := by
  cases kind with
  | r => exact RFields.tiled f
  | i => exact IFields.tiled f
  | sb => exact SBFields.tiled f
  | uj => exact UJFields.tiled f
  | legacy => exact LegacyFields.tiled f

theorem stop_slots (kind : Kind) (f : kind.Fields) :
    32 - Slot.stop firstAt (kind.slots f) = kind.reservedBits := by
  cases kind <;> rfl

theorem ofWord_eq_iff {kind : Kind} {word : Word} {f : kind.Fields} :
    kind.ofWord word = f ↔ ∀ s ∈ kind.slots f, s.Holds word := by
  cases kind with
  | r => exact RFields.ofWord_eq_iff
  | i => exact IFields.ofWord_eq_iff
  | sb => exact SBFields.ofWord_eq_iff
  | uj => exact UJFields.ofWord_eq_iff
  | legacy => exact LegacyFields.ofWord_eq_iff

theorem findSome?_checks {kind : Kind} {opcode : Opcode} (same : opcode.shape = kind.shape)
    (f : kind.Fields) :
    (kind.checks opcode f).findSome? id = (kind.slots f).findSome? Slot.refusal? := by
  rw [checks, if_pos same]
  cases kind <;>
    simp only [registers, funct?, slots, RFields.slots, IFields.slots, SBFields.slots,
      UJFields.slots, LegacyFields.slots, Slot.refusal?_ofRegister, Slot.refusal?_ofFunct,
      Slot.refusal?_ofImm, Option.toList, List.map_cons, List.map_nil,
      List.cons_append, List.nil_append, List.findSome?_cons, List.findSome?_nil, id_eq]

theorem findSome?_checks_eq_none_iff {kind : Kind} {opcode : Opcode} {f : kind.Fields} :
    (kind.checks opcode f).findSome? id = none ↔
      opcode.shape = kind.shape ∧ .pc ∉ kind.registers f ∧
        ∀ funct ∈ kind.funct? f, funct.code < 8 := by
  have general : (∀ r ∈ kind.registers f, r ≠ .pc) ↔ .pc ∉ kind.registers f :=
    ⟨fun others member => others _ member rfl, fun absent _ member same => absent (same ▸ member)⟩
  rw [← general]
  simp [checks, or_imp, forall_and]

theorem encode_of_failed {kind : Kind} {opcode : Opcode} {f : kind.Fields} {error : EncodingError}
    (failed : (kind.checks opcode f).findSome? id = some error) :
    kind.encode opcode f = .error error := by
  by_cases same : opcode.shape = kind.shape
  · rw [encode_of_shape same]
    rw [findSome?_checks same] at failed
    exact Slot.fill_eq_error (kind.tiled f) failed _
  · rw [checks, if_neg same] at failed
    cases failed
    exact encode_of_other_shape same f

theorem encode_of_passed {kind : Kind} {opcode : Opcode} {f : kind.Fields}
    (passed : (kind.checks opcode f).findSome? id = none) :
    ∃ word, kind.encode opcode f = .ok word ∧ decode kind.ofWord word = .ok (opcode, f) ∧
      ZeroBelow kind.reservedBits word := by
  have same := (findSome?_checks_eq_none_iff.mp passed).1
  rw [findSome?_checks same, List.findSome?_eq_none_iff] at passed
  obtain ⟨word, filled, holds, keep, room⟩ :=
    Slot.fill_ok (kind.tiled f) opcode.zeroBelow_toWord passed
  rw [stop_slots] at room
  have code : Opcode.ofWord word = .ok opcode := by
    rw [Opcode.ofWord_eq_ok_iff, Opcode.codeOf_congr keep, Opcode.codeOf_toWord]
  refine ⟨word, (encode_of_shape same f).trans filled, ?_, room⟩
  rw [decode, code, ofWord_eq_iff.mpr holds]

theorem encode_ofWord {kind : Kind} {word : Word} {opcode : Opcode}
    (code : Opcode.ofWord word = .ok opcode) (same : opcode.shape = kind.shape) :
    kind.encode opcode (kind.ofWord word) = .ok (clearLow kind.reservedBits word) := by
  have filled := Slot.fill_held (kind.tiled (kind.ofWord word)) (ofWord_eq_iff.mp rfl)
  rw [stop_slots] at filled
  rw [encode_of_shape same, Opcode.toWord_eq_clearLow (Opcode.ofWord_eq_ok_iff.mp code)]
  exact filled

theorem exists_encode_iff {kind : Kind} {opcode : Opcode} {f : kind.Fields} :
    (∃ word, kind.encode opcode f = .ok word) ↔
      opcode.shape = kind.shape ∧ .pc ∉ kind.registers f ∧
        ∀ funct ∈ kind.funct? f, funct.code < 8 := by
  rw [← findSome?_checks_eq_none_iff]
  constructor
  · rintro ⟨word, built⟩
    cases found : (kind.checks opcode f).findSome? id with
    | none => rfl
    | some error =>
      rw [encode_of_failed found] at built
      cases built
  · intro passed
    obtain ⟨word, built, _⟩ := encode_of_passed passed
    exact ⟨word, built⟩

theorem encode_eq_error_iff {kind : Kind} {opcode : Opcode} {f : kind.Fields}
    {error : EncodingError} :
    kind.encode opcode f = .error error ↔ (kind.checks opcode f).findSome? id = some error := by
  refine ⟨fun refused => ?_, encode_of_failed⟩
  cases found : (kind.checks opcode f).findSome? id with
  | none =>
    obtain ⟨word, built, _⟩ := encode_of_passed found
    rw [refused] at built
    cases built
  | some other =>
    rw [encode_of_failed found] at refused
    cases refused
    rfl

theorem decode_of_encode {kind : Kind} {opcode : Opcode} {f : kind.Fields} {word : Word}
    (built : kind.encode opcode f = .ok word) :
    decode kind.ofWord word = .ok (opcode, f) ∧ ZeroBelow kind.reservedBits word := by
  obtain ⟨other, same, held⟩ :=
    encode_of_passed (findSome?_checks_eq_none_iff.mpr (exists_encode_iff.mp ⟨word, built⟩))
  rw [built] at same
  cases same
  exact held

/-- A layout builds a word exactly if the opcode has its shape, no register is the program counter
    and the funct fits, and otherwise stops at its first check that fails. What it built it reads
    again, and what it read it builds again but for the reserved bits. -/
theorem builds_what_fits (kind : Kind) :
    (∀ opcode f, (∃ word, kind.encode opcode f = .ok word) ↔
      opcode.shape = kind.shape ∧ .pc ∉ kind.registers f ∧
        ∀ funct ∈ kind.funct? f, funct.code < 8) ∧
    (∀ opcode f error, kind.encode opcode f = .error error ↔
      (kind.checks opcode f).findSome? id = some error) ∧
    (∀ opcode f word, kind.encode opcode f = .ok word →
      decode kind.ofWord word = .ok (opcode, f) ∧
        ∀ i < kind.reservedBits, word.getLsbD i = false) ∧
    ∀ word opcode, Opcode.ofWord word = .ok opcode → opcode.shape = kind.shape →
      ∃ f, decode kind.ofWord word = .ok (opcode, f) ∧
        kind.encode opcode f = .ok (clearLow kind.reservedBits word) := by
  refine ⟨fun _ _ => exists_encode_iff, fun _ _ _ => encode_eq_error_iff,
    fun _ _ _ => decode_of_encode, ?_⟩
  intro word opcode code same
  refine ⟨kind.ofWord word, ?_, encode_ofWord code same⟩
  rw [decode, code]

theorem builds_what_fits_stray_funct_and_reserved_bits :
    (∃ word, Kind.i.encode .lw ⟨.x 1, .x 31, ⟨0x800⟩, ⟨7⟩⟩ = .ok word ∧
      decode Kind.i.ofWord word = .ok (.lw, ⟨.x 1, .x 31, ⟨0x800⟩, ⟨7⟩⟩)) ∧
    Kind.sb.encode .sw ⟨.x 1, .pc, ⟨0⟩, ⟨9⟩⟩ = .error .programCounter ∧
    ∃ f, decode Kind.legacy.ofWord 0x020003FF = .ok (.put, f) ∧
      Kind.legacy.encode .put f = .ok (clearLow 10 0x020003FF) := by
  refine ⟨?_, ?_, ?_⟩
  · obtain ⟨word, built⟩ := ((builds_what_fits .i).1 .lw ⟨.x 1, .x 31, ⟨0x800⟩, ⟨7⟩⟩).mpr
      ⟨rfl, by decide, by decide⟩
    exact ⟨word, built, ((builds_what_fits .i).2.2.1 _ _ _ built).1⟩
  · exact ((builds_what_fits .sb).2.1 _ _ _).mpr rfl
  · exact (builds_what_fits .legacy).2.2.2 0x020003FF .put rfl rfl

end Kind

end Layout

end WordMachine
