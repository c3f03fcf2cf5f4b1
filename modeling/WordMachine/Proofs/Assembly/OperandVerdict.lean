import Mathlib.Algebra.Group.Int.Defs
import WordMachine.Assembly.Program
import WordMachine.Proofs.Encoding.Immediate
import WordMachine.Proofs.Text.NumeralValue

/-!
What is to be found of a token that stands where an operand belongs: the operand, that its number is
out of range, or that it has not the form of one. Readers that put the number together in a machine
word, and may run out of bits before they know it, come to the same.
-/

namespace WordMachine

def IsRegister (text : List Char) (n : Nat) : Prop :=
  ∃ digits, text = 'x' :: digits ∧ IsNumeral digits ∧ numeralValue digits = n

theorem not_isRegister_of_not_isNumeral {text digits : List Char} (form : text = 'x' :: digits)
    (other : ¬ IsNumeral digits) (n : Nat) : ¬ IsRegister text n := by
  rintro ⟨others, same, numeral, _⟩
  rw [form] at same
  cases same
  exact other numeral

theorem not_isRegister_of_ne {text : List Char} (other : ∀ digits, text ≠ 'x' :: digits)
    (n : Nat) : ¬ IsRegister text n := by
  rintro ⟨digits, form, _⟩
  exact other digits form

namespace OperandKind

inductive RegisterFound (token : String) : Except AssemblyCause Register → Prop where
  | register {n : Nat} (form : IsRegister token.toList n) (bound : n < 32) :
      RegisterFound token (.ok (.x ⟨n, bound⟩))
  | outOfRange {n : Nat} (form : IsRegister token.toList n) (beyond : 31 < n) :
      RegisterFound token (.error (.registerOutOfRange token))
  | otherForm (other : ∀ n, ¬ IsRegister token.toList n) :
      RegisterFound token (.error (.expectedRegister token))

inductive ImmediateFound (width : Nat) (token : String) :
    Except AssemblyCause (Imm width) → Prop where
  | immediate {imm : Imm width} (form : IsInteger token.toList imm.value) :
      ImmediateFound width token (.ok imm)
  | outOfRange {value : Int} (form : IsInteger token.toList value)
      (beyond : value < -2 ^ (width - 1) ∨ 2 ^ (width - 1) ≤ value) :
      ImmediateFound width token (.error (.immediateOutOfRange token width))
  | otherForm (other : ∀ value, ¬ IsInteger token.toList value) :
      ImmediateFound width token (.error (.expectedImmediate token))

def Found : (kind : OperandKind) → String → Except AssemblyCause kind.Value → Prop
  | .register, token, result => RegisterFound token result
  | .imm12, token, result => ImmediateFound 12 token result
  | .imm20, token, result => ImmediateFound 20 token result

theorem registerFound_readRegister (token : String) : RegisterFound token (readRegister token) := by
  rw [readRegister]
  split
  · rename_i digits form
    split
    · rename_i n known
      have named : IsRegister token.toList n := ⟨digits, form, numeral?_eq_some_iff.mp known⟩
      split
      · exact .register named _
      · exact .outOfRange named (by omega)
    · rename_i unknown
      refine .otherForm (not_isRegister_of_not_isNumeral form fun numeral => ?_)
      rw [numeral?_eq_some_iff.mpr ⟨numeral, rfl⟩] at unknown
      cases unknown
  · rename_i other
    exact .otherForm (not_isRegister_of_ne other)

theorem readRegister_of_isRegister {token : String} {n : Nat} (form : IsRegister token.toList n) :
    readRegister token =
      if bound : n < 32 then .ok (.x ⟨n, bound⟩) else .error (.registerOutOfRange token) := by
  obtain ⟨digits, text, numeral⟩ := form
  simp only [readRegister, text, numeral?_eq_some_iff.mpr numeral]

theorem readRegister_eq_iff {token : String} {result : Except AssemblyCause Register} :
    readRegister token = result ↔ RegisterFound token result := by
  constructor
  · rintro rfl
    exact registerFound_readRegister token
  · intro found
    cases found with
    | register form bound => rw [readRegister_of_isRegister form, dif_pos bound]
    | outOfRange form beyond => rw [readRegister_of_isRegister form, dif_neg (by omega)]
    | otherForm other =>
      have reached := registerFound_readRegister token
      generalize readRegister token = result at reached ⊢
      cases reached with
      | register form _ | outOfRange form _ => exact absurd form (other _)
      | otherForm _ => rfl

theorem immediateFound_readImmediate {width : Nat} (positive : 0 < width) (token : String) :
    ImmediateFound width token (readImmediate width token) := by
  rw [readImmediate]
  split
  · rename_i value known
    have form := integer?_eq_some_iff.mp known
    split
    · rename_i imm inside
      rw [← Imm.value_of_ofInt? positive inside] at form
      exact .immediate form
    · rename_i outside
      exact .outOfRange form (Imm.ofInt?_eq_none_iff.mp outside)
  · rename_i unknown
    apply ImmediateFound.otherForm
    intro value form
    rw [integer?_eq_some_iff.mpr form] at unknown
    cases unknown

theorem readImmediate_eq_iff {width : Nat} (positive : 0 < width) {token : String}
    {result : Except AssemblyCause (Imm width)} :
    readImmediate width token = result ↔ ImmediateFound width token result := by
  constructor
  · rintro rfl
    exact immediateFound_readImmediate positive token
  · intro found
    cases found with
    | immediate form =>
      simp only [readImmediate, integer?_eq_some_iff.mpr form, Imm.ofInt?_value]
    | outOfRange form beyond =>
      simp only [readImmediate, integer?_eq_some_iff.mpr form, Imm.ofInt?_eq_none_iff.mpr beyond]
    | otherForm other =>
      have reached := immediateFound_readImmediate positive token
      generalize readImmediate width token = result at reached ⊢
      cases reached with
      | immediate form | outOfRange form _ => exact absurd form (other _)
      | otherForm _ => rfl

theorem read_eq_iff {kind : OperandKind} {token : String}
    {result : Except AssemblyCause kind.Value} :
    kind.read token = result ↔ kind.Found token result := by
  cases kind with
  | register => exact readRegister_eq_iff
  | imm12 | imm20 => exact readImmediate_eq_iff (by decide)

namespace Bounded

/-- Reads a register whose number has to stay below `limit` while it is put together. -/
def readRegister (limit : Nat) (token : String) : Except AssemblyCause Register :=
  match token.toList with
  | 'x' :: digits =>
    if IsNumeral digits then
      match valueBelow? limit 0 digits with
      | some number =>
        if bound : number < 32 then .ok (.x ⟨number, bound⟩) else .error (.registerOutOfRange token)
      | none => .error (.registerOutOfRange token)
    else .error (.expectedRegister token)
  | _ => .error (.expectedRegister token)

def readImmediate (limit width : Nat) (token : String) : Except AssemblyCause (Imm width) :=
  if IsNumeral (withoutSign token.toList) then
    match integerWithin? limit token.toList with
    | some value =>
      match Imm.ofInt? width value with
      | some imm => .ok imm
      | none => .error (.immediateOutOfRange token width)
    | none => .error (.immediateOutOfRange token width)
  else .error (.expectedImmediate token)

/-- Reads with machine words: the number of a register without a sign, in 64 bits, and the value of
    an immediate with a sign, in 64 bits too. -/
def read : (kind : OperandKind) → String → Except AssemblyCause kind.Value
  | .register, token => readRegister (2 ^ 64) token
  | .imm12, token => readImmediate (2 ^ 63) 12 token
  | .imm20, token => readImmediate (2 ^ 63) 20 token

theorem registerFound_readRegister {limit : Nat} (enough : 32 ≤ limit) (token : String) :
    RegisterFound token (readRegister limit token) := by
  rw [readRegister]
  split
  · rename_i digits form
    split
    · rename_i numeral
      have named : IsRegister token.toList (numeralValue digits) := ⟨digits, form, numeral, rfl⟩
      rw [valueBelow?_eq (by omega)]
      by_cases below : numeralValue digits < limit
      · simp only [below, if_true]
        split
        · exact .register named _
        · exact .outOfRange named (by omega)
      · -- The limit is behind the last register, so the check against that is not missed.
        simp only [below, if_false]
        exact .outOfRange named (by omega)
    · rename_i other
      exact .otherForm (not_isRegister_of_not_isNumeral form other)
  · rename_i other
    exact .otherForm (not_isRegister_of_ne other)

theorem immediateFound_readImmediate {limit width : Nat} (positive : 0 < width)
    (enough : 2 ^ (width - 1) ≤ limit) (token : String) :
    ImmediateFound width token (readImmediate limit width token) := by
  have some_room : 0 < limit := Nat.lt_of_lt_of_le (Nat.two_pow_pos _) enough
  rw [readImmediate]
  split
  · rename_i numeral
    obtain ⟨value, form⟩ := isNumeral_withoutSign_iff.mp numeral
    rw [integerWithin?_eq some_room form]
    by_cases within : -(limit : Int) ≤ value ∧ value < limit
    · simp only [within, and_self, if_true]
      split
      · rename_i imm inside
        rw [← Imm.value_of_ofInt? positive inside] at form
        exact .immediate form
      · rename_i outside
        exact .outOfRange form (Imm.ofInt?_eq_none_iff.mp outside)
    · have wide : (2 : Int) ^ (width - 1) ≤ limit := by exact_mod_cast enough
      simp only [within, if_false]
      exact .outOfRange form (by omega)
  · rename_i other
    apply ImmediateFound.otherForm
    intro value form
    exact other (isNumeral_withoutSign_iff.mpr ⟨value, form⟩)

/-- The bits of a machine word are enough: what does not fit into it is out of range anyway. -/
theorem read_eq (kind : OperandKind) (token : String) : read kind token = kind.read token := by
  symm
  rw [read_eq_iff]
  cases kind with
  | register => exact registerFound_readRegister (by decide) token
  | imm12 | imm20 => exact immediateFound_readImmediate (by decide) (by decide) token

end Bounded

end OperandKind

end WordMachine
