import Mathlib.Tactic.Simproc.ExistsAndEq
import WordMachine.Proofs.Instruction.Code

/-!
Which words decode, and what is left of a word that is decoded and encoded again. The words that do
not decode are those with an unbound opcode and those with an unbound funct under one of the three
opcodes that have one. Any other word is, but for its reserved bits, the word of its instruction.
-/

namespace WordMachine

namespace Instruction
open Layout

def reservedBits : Opcode → Nat
  | .hlt => 25
  | .put | .get | .mlt => 10
  | .op => 7
  | .lw | .sw => 3
  | .imm | .branch | .jal | .lui => 0

theorem stop_operands (i : Instruction) :
    32 - Slot.stop firstAt i.operands = reservedBits i.opcode := by
  cases i <;> rfl

theorem encode_of_decode {word : Word} {i : Instruction} (decoded : decode word = .ok i) :
    i.encode = .ok (clearLow (reservedBits i.opcode) word) := by
  obtain ⟨same, held⟩ := decode_eq_ok_iff.mp decoded
  have filled := Slot.fill_held i.tiled_operands held
  rw [stop_operands] at filled
  rw [encode_eq_fill, Opcode.toWord_eq_clearLow same]
  rcases i.slots_eq with same | ⟨offset, fits, more⟩
  · rw [same]
    exact filled
  · rw [more, Slot.fill_append]
    exact (congrArg (· >>= _) filled).trans (Slot.fill_zero_funct fits _)

theorem eq_iff_agree_of_decode {a b : Word} {i j : Instruction} (first : decode a = .ok i)
    (second : decode b = .ok j) : i = j ↔ AgreeFrom (reservedBits i.opcode) a b := by
  have encodedFirst := encode_of_decode first
  have encodedSecond := encode_of_decode second
  constructor
  · rintro rfl
    rw [encodedFirst] at encodedSecond
    exact clearLow_eq_iff.mp (Except.ok.inj encodedSecond)
  · intro agree
    -- The opcode lies above all reserved bits, so the words agree on which bits those are.
    have within : reservedBits i.opcode ≤ 25 := by cases i.opcode <;> decide
    have codes : i.opcode.code = j.opcode.code := by
      rw [← (decode_eq_ok_iff.mp first).1, ← (decode_eq_ok_iff.mp second).1]
      exact Opcode.codeOf_congr (agree.mono within)
    have opcodes : i.opcode = j.opcode := Opcode.code_injective codes
    rw [← opcodes, ← clearLow_eq_iff.mpr agree] at encodedSecond
    exact encode_injective encodedFirst encodedSecond

/-- The funct bits of the word are no operation of the opcode. -/
def Unbound (word : Word) : Opcode → Nat → Prop
  | .op, funct => funct = word.toNat / 2 ^ 7 % 8 ∧ funct ≠ 0
  | .imm, funct => funct = word.toNat % 8 ∧ 1 < funct
  | .branch, funct => funct = word.toNat % 8 ∧ funct ≠ 0
  | _, _ => False

theorem innerFunct_eq (word : Word) :
    (RFields.ofWord word).funct.code = word.toNat / 2 ^ 7 % 8 :=
  Field.toNat_bitsAt (by decide) innerFunctAt word

theorem lastFunct_eq (word : Word) : (Field.funct.read word lastFunctAt).code = word.toNat % 8 := by
  have read := Field.toNat_bitsAt (show 3 ≤ 32 by decide) lastFunctAt word
  rwa [show 32 - lastFunctAt - 3 = 0 from rfl, Nat.pow_zero, Nat.div_one] at read

theorem ofOperands_eq_error_iff {opcode : Opcode} {word : Word} {error : DecodeError} :
    ofOperands opcode word = .error error ↔
      ∃ funct, Unbound word opcode funct ∧ error = .unboundFunct opcode funct := by
  cases opcode with
  | op =>
    simp only [Unbound, ofOperands, ← innerFunct_eq]
    obtain ⟨a, b, c, n⟩ := RFields.ofWord word
    rcases n with _ | n <;> simp [OpFunct.ofCode?, eq_comm]
  | imm =>
    simp only [Unbound, ofOperands, ← lastFunct_eq, IFields.ofWord]
    obtain ⟨n⟩ := Field.funct.read word lastFunctAt
    rcases n with _ | _ | n <;> simp [ImmFunct.ofCode?, eq_comm]
  | branch =>
    simp only [Unbound, ofOperands, ← lastFunct_eq, SBFields.ofWord]
    obtain ⟨n⟩ := Field.funct.read word lastFunctAt
    rcases n with _ | n <;> simp [BranchFunct.ofCode?, eq_comm]
  | _ => simp [Unbound, ofOperands]

theorem decode_eq_unknownOpcode_iff {word : Word} {code : Nat} :
    decode word = .error (.unknownOpcode code) ↔ code = Opcode.codeOf word ∧ 11 ≤ code := by
  rw [decode]
  cases known : Opcode.ofWord word with
  | ok opcode =>
    have below := Opcode.code_lt_sentinel opcode
    rw [← Opcode.ofWord_eq_ok_iff.mp known, Opcode.sentinel] at below
    simp only [ofOperands_eq_error_iff, reduceCtorEq, and_false, exists_false, false_iff]
    rintro ⟨rfl, above⟩
    omega
  | error other =>
    obtain ⟨rfl, above⟩ := Opcode.ofWord_eq_error_iff.mp known
    rw [Opcode.sentinel] at above
    constructor
    · intro same
      cases same
      exact ⟨rfl, above⟩
    · rintro ⟨rfl, _⟩
      rfl

theorem decode_eq_unboundFunct_iff {word : Word} {opcode : Opcode} {funct : Nat} :
    decode word = .error (.unboundFunct opcode funct) ↔
      Opcode.codeOf word = opcode.code ∧ Unbound word opcode funct := by
  rw [← Opcode.ofWord_eq_ok_iff, decode]
  cases known : Opcode.ofWord word with
  | ok other =>
    simp only [ofOperands_eq_error_iff, DecodeError.unboundFunct.injEq, Except.ok.injEq]
    constructor
    · rintro ⟨_, unbound, rfl, rfl⟩
      exact ⟨rfl, unbound⟩
    · rintro ⟨rfl, unbound⟩
      exact ⟨funct, unbound, rfl, rfl⟩
  | error code => simp

theorem codeOf_eq (word : Word) : Opcode.codeOf word = word.toNat / 2 ^ 25 := by
  rw [Opcode.codeOf, BitVec.toNat_ushiftRight, Nat.shiftRight_eq_div_pow]

/-- Every word is refused for its opcode, refused for its funct or accepted. An accepted word gives
    back all of itself but its reserved bits, and nothing in them matters to decoding. -/
theorem decode_exact (word : Word) :
    (∀ code, decode word = .error (.unknownOpcode code) ↔
      code = word.toNat / 2 ^ 25 ∧ 11 ≤ code) ∧
    (∀ opcode funct, decode word = .error (.unboundFunct opcode funct) ↔
      word.toNat / 2 ^ 25 = opcode.code ∧ Unbound word opcode funct) ∧
    (11 ≤ word.toNat / 2 ^ 25 ∨
      (∃ opcode funct, word.toNat / 2 ^ 25 = opcode.code ∧ Unbound word opcode funct) ∨
      ∃ i, decode word = .ok i ∧ word.toNat / 2 ^ 25 = i.opcode.code ∧
        i.encode = .ok (clearLow (reservedBits i.opcode) word)) ∧
    (∀ other i j, decode word = .ok i → decode other = .ok j →
      (i = j ↔ ∀ k, reservedBits i.opcode ≤ k → word.getLsbD k = other.getLsbD k)) ∧
    ∀ i again, decode word = .ok i → i.encode = .ok again → decode again = .ok i := by
  rw [← codeOf_eq]
  refine ⟨fun _ => decode_eq_unknownOpcode_iff, fun _ _ => decode_eq_unboundFunct_iff, ?_,
    fun _ _ _ => eq_iff_agree_of_decode, fun _ _ _ => decode_of_encode⟩
  cases decoded : decode word with
  | ok i =>
    exact Or.inr (Or.inr ⟨i, rfl, (decode_eq_ok_iff.mp decoded).1, encode_of_decode decoded⟩)
  | error error =>
    cases error with
    | unknownOpcode code =>
      obtain ⟨rfl, above⟩ := decode_eq_unknownOpcode_iff.mp decoded
      exact Or.inl above
    | unboundFunct opcode funct =>
      exact Or.inr (Or.inl ⟨opcode, funct, decode_eq_unboundFunct_iff.mp decoded⟩)

theorem decode_exact_product :
    decode 0x08808BFF#32 = .ok (mlt (.x 8) (.x 1) (.x 2)) ∧
    (∀ k, 10 ≤ k → (0x08808BFF#32).getLsbD k = (0x08808800#32).getLsbD k) ∧
    decode 0x08808800#32 = .ok (mlt (.x 8) (.x 1) (.x 2)) :=
  ⟨rfl, ((decode_exact _).2.2.2.1 _ _ (mlt (.x 8) (.x 1) (.x 2)) rfl rfl).mp rfl,
    (decode_exact 0x08808BFF#32).2.2.2.2 _ _ rfl rfl⟩

end Instruction

end WordMachine
