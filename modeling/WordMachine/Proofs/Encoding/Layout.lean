import WordMachine.Encoding.Layout
import WordMachine.Proofs.Encoding.Field

/-!
Words and the operands of a shape. A word built by one of the five layouts gives back its opcode and
its operands, and building a word again from its own opcode and operands clears the bits under the
last field and nothing else.
-/

namespace WordMachine

namespace Opcode

theorem codeOf_congr {a b : Word} (agree : AgreeFrom 25 a b) : codeOf a = codeOf b := by
  have same : a >>> 25 = b >>> 25 := by
    apply BitVec.eq_of_getLsbD_eq
    intro i _
    simp only [BitVec.getLsbD_ushiftRight, agree (25 + i) (Nat.le_add_right 25 i)]
  rw [codeOf, codeOf, same]

theorem codeOf_toWord (opcode : Opcode) : codeOf opcode.toWord = opcode.code := by
  cases opcode <;> decide

theorem zeroBelow_toWord (opcode : Opcode) : ZeroBelow 25 opcode.toWord := by
  intro i low
  simp only [toWord, BitVec.getLsbD_shiftLeft, low, decide_true, Bool.not_true, Bool.and_false,
    Bool.false_and]

theorem toWord_eq_clearLow {opcode : Opcode} {word : Word} (same : codeOf word = opcode.code) :
    opcode.toWord = clearLow 25 word := by
  rw [toWord, clearLow, ← same, codeOf, BitVec.ofNat_toNat, BitVec.setWidth_eq]

theorem code_injective {a b : Opcode} (same : a.code = b.code) : a = b := by
  have found := ofCode?_code a
  rw [same, ofCode?_code] at found
  exact (Option.some.inj found).symm

theorem ofWord_eq_ok_iff {opcode : Opcode} {word : Word} :
    ofWord word = .ok opcode ↔ codeOf word = opcode.code := by
  rw [ofWord]
  constructor
  · intro found
    split at found
    · rename_i other known
      cases found
      exact (code_ofCode? known).symm
    · cases found
  · intro same
    rw [same, ofCode?_code]

theorem ofWord_eq_error_iff {code : Nat} {word : Word} :
    ofWord word = .error code ↔ code = codeOf word ∧ sentinel ≤ codeOf word := by
  rw [ofWord, ← ofCode?_eq_none_iff]
  split
  · rename_i known
    simp [known]
  · rename_i unknown
    simp [unknown, eq_comm]

end Opcode

/-- A field at its place in a layout, with the value that goes there. -/
structure Slot where
  {Value : Type}
  field : Field Value
  lawful : field.Lawful
  offset : Nat
  value : Value

theorem Layout.checkShape_eq_pure {opcode : Opcode} {shape : Shape} (same : opcode.shape = shape) :
    checkShape opcode shape = pure () := if_pos same

namespace Slot

def fill (word : Word) : List Slot → Except EncodingError Word
  | [] => pure word
  | s :: rest => s.field.pack word s.offset s.value >>= fun packed => fill packed rest

def Tiled (start : Nat) : List Slot → Prop
  | [] => True
  | s :: rest => s.offset = start ∧ start + s.field.width ≤ 32 ∧ Tiled (start + s.field.width) rest

def stop (start : Nat) : List Slot → Nat
  | [] => start
  | s :: rest => stop (start + s.field.width) rest

def refusal? (s : Slot) : Option EncodingError :=
  match s.field.toBits s.value with
  | .ok _ => none
  | .error error => some error

def Holds (word : Word) (s : Slot) : Prop := s.field.read word s.offset = s.value

theorem holds_congr {s : Slot} {a b : Word}
    (agree : AgreeFrom (32 - (s.offset + s.field.width)) a b) (holds : Holds b s) :
    Holds a s := by
  rw [Nat.sub_add_eq] at agree
  exact (Field.read_congr s.field agree).trans holds

theorem tiled_of_append {start : Nat} {first rest : List Slot}
    (tiled : Tiled start (first ++ rest)) : Tiled start first := by
  induction first generalizing start with
  | nil => trivial
  | cons s first ih => exact ⟨tiled.1, tiled.2.1, ih tiled.2.2⟩

theorem fill_append (word : Word) (first rest : List Slot) :
    fill word (first ++ rest) = fill word first >>= fun filled => fill filled rest := by
  induction first generalizing word with
  | nil => simp only [List.nil_append, fill, pure_bind]
  | cons s first ih => simp only [List.cons_append, fill, bind_assoc, ih]

/-- Without a refusal the slots are filled, hold their values and leave what is above them. -/
theorem fill_ok {start : Nat} {slots : List Slot} {word : Word} (tiled : Tiled start slots)
    (vacant : ZeroBelow (32 - start) word) (free : ∀ s ∈ slots, s.refusal? = none) :
    ∃ filled, fill word slots = .ok filled ∧ (∀ s ∈ slots, Holds filled s) ∧
      AgreeFrom (32 - start) filled word ∧ ZeroBelow (32 - stop start slots) filled := by
  induction slots generalizing start word with
  | nil => exact ⟨word, rfl, by simp, fun _ _ => rfl, vacant⟩
  | cons s rest ih =>
    obtain ⟨rfl, fits, tiledRest⟩ := tiled
    obtain ⟨bits, encoded⟩ : ∃ bits, s.field.toBits s.value = .ok bits := by
      have none := free s List.mem_cons_self
      simp only [refusal?] at none
      split at none
      · exact ⟨_, ‹_›⟩
      · cases none
    obtain ⟨packed, run, holds, keep, room⟩ := Field.pack_next s.lawful encoded fits vacant
    obtain ⟨filled, runRest, holdRest, keepRest, roomRest⟩ :=
      ih tiledRest room fun t member => free t (List.mem_cons_of_mem s member)
    refine ⟨filled, ?_, ?_, ?_, roomRest⟩
    · simp only [fill, run, runRest, bind, Except.bind]
    · intro t member
      rcases List.mem_cons.mp member with rfl | member
      · exact holds_congr keepRest holds
      · exact holdRest t member
    · exact (keepRest.mono (by omega)).trans keep

theorem fill_eq_error {start : Nat} {slots : List Slot} {error : EncodingError}
    (tiled : Tiled start slots) (refused : slots.findSome? refusal? = some error) (word : Word) :
    fill word slots = .error error := by
  induction slots generalizing start word with
  | nil => simp at refused
  | cons s rest ih =>
    obtain ⟨rfl, fits, tiledRest⟩ := tiled
    rw [List.findSome?_cons] at refused
    cases encoded : s.field.toBits s.value with
    | error cause =>
      simp only [refusal?, encoded, Option.some.injEq] at refused
      rw [fill, Field.pack_eq_error encoded, refused]
      rfl
    | ok bits =>
      simp only [refusal?, encoded] at refused
      rw [fill, Field.pack_eq_ok_iff.mpr ⟨bits, encoded, fits, rfl⟩]
      exact ih tiledRest refused _

/-- Slots filled with what a word holds there give the word back, down to the end of the last. -/
theorem fill_held {start : Nat} {slots : List Slot} {word : Word} (tiled : Tiled start slots)
    (held : ∀ s ∈ slots, Holds word s) :
    fill (clearLow (32 - start) word) slots = .ok (clearLow (32 - stop start slots) word) := by
  induction slots generalizing start with
  | nil => rfl
  | cons s rest ih =>
    obtain ⟨rfl, fits, tiledRest⟩ := tiled
    have first : s.field.read word s.offset = s.value := held s List.mem_cons_self
    rw [fill, ← first, Field.pack_read s.lawful fits]
    exact ih tiledRest fun t member => held t (List.mem_cons_of_mem s member)

def ofRegister (offset : Nat) (r : Register) : Slot :=
  ⟨Field.register, Field.register_lawful, offset, r⟩

def ofFunct (offset : Nat) (f : Funct) : Slot := ⟨Field.funct, Field.funct_lawful, offset, f⟩

theorem fill_zero_funct {offset : Nat} (fits : offset + 3 ≤ 32) (word : Word) :
    fill word [ofFunct offset ⟨0⟩] = .ok word := by
  have packed : Field.funct.pack word offset ⟨0⟩ = .ok word :=
    Field.pack_eq_ok_iff.mpr ⟨0, rfl, fits, by simp [Field.placed]⟩
  rw [fill, ofFunct, packed]
  rfl

def ofImm {width : Nat} (within : width ≤ 32) (offset : Nat) (imm : Imm width) : Slot :=
  ⟨Field.imm width, Field.imm_lawful within, offset, imm⟩

theorem refusal?_ofRegister (offset : Nat) (r : Register) :
    (ofRegister offset r).refusal? = if r = .pc then some .programCounter else none := by
  cases r <;> rfl

theorem refusal?_ofFunct (offset : Nat) (f : Funct) :
    (ofFunct offset f).refusal? = if f.code < 8 then none else some (.functTooWide f.code) := by
  by_cases small : f.code < 8
  · simp only [refusal?, ofFunct, Field.funct, small, ↓reduceIte]
  · simp only [refusal?, ofFunct, Field.funct, small, ↓reduceIte]

theorem refusal?_ofImm {width : Nat} (within : width ≤ 32) (offset : Nat) (imm : Imm width) :
    (ofImm within offset imm).refusal? = none := rfl

end Slot

open Layout

def RFields.slots (f : RFields) : List Slot :=
  [.ofRegister firstAt f.rd, .ofRegister secondAt f.rs1, .ofRegister thirdAt f.rs2,
    .ofFunct innerFunctAt f.funct]

def IFields.slots (f : IFields) : List Slot :=
  [.ofRegister firstAt f.rd, .ofRegister secondAt f.rs1, .ofImm (by decide) thirdAt f.imm,
    .ofFunct lastFunctAt f.funct]

def SBFields.slots (f : SBFields) : List Slot :=
  [.ofRegister firstAt f.rs1, .ofRegister secondAt f.rs2, .ofImm (by decide) thirdAt f.imm,
    .ofFunct lastFunctAt f.funct]

def UJFields.slots (f : UJFields) : List Slot :=
  [.ofRegister firstAt f.rd, .ofImm (by decide) longImmAt f.imm]

def LegacyFields.slots (f : LegacyFields) : List Slot :=
  [.ofRegister firstAt f.value, .ofRegister secondAt f.base, .ofRegister thirdAt f.offset]

theorem RFields.encode_eq_fill {opcode : Opcode} (shape : opcode.shape = .r) (f : RFields) :
    RFields.encode opcode f = Slot.fill opcode.toWord f.slots := by
  simp only [RFields.encode, checkShape_eq_pure shape, pure_bind, RFields.slots, Slot.fill,
    bind_pure, Slot.ofRegister, Slot.ofFunct]

theorem RFields.tiled (f : RFields) : Slot.Tiled firstAt f.slots := by
  simp [RFields.slots, Slot.Tiled, Slot.ofRegister, Slot.ofFunct, Field.register, Field.funct,
    firstAt, secondAt, thirdAt, innerFunctAt]

theorem RFields.ofWord_eq_iff {word : Word} {f : RFields} :
    RFields.ofWord word = f ↔ ∀ s ∈ f.slots, s.Holds word := by
  obtain ⟨rd, rs1, rs2, funct⟩ := f
  simp [RFields.ofWord, RFields.slots, Slot.Holds, Slot.ofRegister, Slot.ofFunct]

theorem IFields.encode_eq_fill {opcode : Opcode} (shape : opcode.shape = .i) (f : IFields) :
    IFields.encode opcode f = Slot.fill opcode.toWord f.slots := by
  simp only [IFields.encode, checkShape_eq_pure shape, pure_bind, IFields.slots, Slot.fill,
    bind_pure, Slot.ofRegister, Slot.ofImm, Slot.ofFunct]

theorem IFields.tiled (f : IFields) : Slot.Tiled firstAt f.slots := by
  simp [IFields.slots, Slot.Tiled, Slot.ofRegister, Slot.ofImm, Slot.ofFunct, Field.register,
    Field.imm, Field.funct, firstAt, secondAt, thirdAt, lastFunctAt]

theorem IFields.ofWord_eq_iff {word : Word} {f : IFields} :
    IFields.ofWord word = f ↔ ∀ s ∈ f.slots, s.Holds word := by
  obtain ⟨rd, rs1, imm, funct⟩ := f
  simp [IFields.ofWord, IFields.slots, Slot.Holds, Slot.ofRegister, Slot.ofImm, Slot.ofFunct]

theorem SBFields.encode_eq_fill {opcode : Opcode} (shape : opcode.shape = .sb) (f : SBFields) :
    SBFields.encode opcode f = Slot.fill opcode.toWord f.slots := by
  simp only [SBFields.encode, checkShape_eq_pure shape, pure_bind, SBFields.slots, Slot.fill,
    bind_pure, Slot.ofRegister, Slot.ofImm, Slot.ofFunct]

theorem SBFields.tiled (f : SBFields) : Slot.Tiled firstAt f.slots := by
  simp [SBFields.slots, Slot.Tiled, Slot.ofRegister, Slot.ofImm, Slot.ofFunct, Field.register,
    Field.imm, Field.funct, firstAt, secondAt, thirdAt, lastFunctAt]

theorem SBFields.ofWord_eq_iff {word : Word} {f : SBFields} :
    SBFields.ofWord word = f ↔ ∀ s ∈ f.slots, s.Holds word := by
  obtain ⟨rs1, rs2, imm, funct⟩ := f
  simp [SBFields.ofWord, SBFields.slots, Slot.Holds, Slot.ofRegister, Slot.ofImm, Slot.ofFunct]

theorem UJFields.encode_eq_fill {opcode : Opcode} (shape : opcode.shape = .uj) (f : UJFields) :
    UJFields.encode opcode f = Slot.fill opcode.toWord f.slots := by
  simp only [UJFields.encode, checkShape_eq_pure shape, pure_bind, UJFields.slots, Slot.fill,
    bind_pure, Slot.ofRegister, Slot.ofImm]

theorem UJFields.tiled (f : UJFields) : Slot.Tiled firstAt f.slots := by
  simp [UJFields.slots, Slot.Tiled, Slot.ofRegister, Slot.ofImm, Field.register, Field.imm,
    firstAt, longImmAt]

theorem UJFields.ofWord_eq_iff {word : Word} {f : UJFields} :
    UJFields.ofWord word = f ↔ ∀ s ∈ f.slots, s.Holds word := by
  obtain ⟨rd, imm⟩ := f
  simp [UJFields.ofWord, UJFields.slots, Slot.Holds, Slot.ofRegister, Slot.ofImm]

theorem LegacyFields.encode_eq_fill {opcode : Opcode} (shape : opcode.shape = .legacy)
    (f : LegacyFields) : LegacyFields.encode opcode f = Slot.fill opcode.toWord f.slots := by
  simp only [LegacyFields.encode, checkShape_eq_pure shape, pure_bind, LegacyFields.slots,
    Slot.fill, bind_pure, Slot.ofRegister]

theorem LegacyFields.tiled (f : LegacyFields) : Slot.Tiled firstAt f.slots := by
  simp [LegacyFields.slots, Slot.Tiled, Slot.ofRegister, Field.register, firstAt, secondAt, thirdAt]

theorem LegacyFields.ofWord_eq_iff {word : Word} {f : LegacyFields} :
    LegacyFields.ofWord word = f ↔ ∀ s ∈ f.slots, s.Holds word := by
  obtain ⟨value, base, offset⟩ := f
  simp [LegacyFields.ofWord, LegacyFields.slots, Slot.Holds, Slot.ofRegister]

end WordMachine
