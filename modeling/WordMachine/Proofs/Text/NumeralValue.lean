import Mathlib.Algebra.Group.Nat.Defs
import WordMachine.Proofs.Text.Numeral

/-!
Numerals by their form and their value: digits, each counted by its place, with or without a sign in
front. A value that is put together in a number of limited size comes out the same or is found to
be too large.
-/

namespace WordMachine

def IsNumeral (digits : List Char) : Prop := digits ≠ [] ∧ ∀ c ∈ digits, '0' ≤ c ∧ c ≤ '9'

instance (digits : List Char) : Decidable (IsNumeral digits) :=
  inferInstanceAs (Decidable (digits ≠ [] ∧ ∀ c ∈ digits, '0' ≤ c ∧ c ≤ '9'))

def numeralValue : List Char → Nat
  | [] => 0
  | c :: rest => (c.toNat - '0'.toNat) * 10 ^ rest.length + numeralValue rest

inductive IsInteger : List Char → Int → Prop where
  | unsigned {digits : List Char} (numeral : IsNumeral digits) :
      IsInteger digits (numeralValue digits)
  | positive {digits : List Char} (numeral : IsNumeral digits) :
      IsInteger ('+' :: digits) (numeralValue digits)
  | negative {digits : List Char} (numeral : IsNumeral digits) :
      IsInteger ('-' :: digits) (-numeralValue digits)

theorem isDigit_iff {c : Char} : c.isDigit = true ↔ '0' ≤ c ∧ c ≤ '9' := by
  simp [Char.isDigit, Char.le_def]

theorem ofDigitChars_eq_numeralValue (digits : List Char) :
    Nat.ofDigitChars 10 digits 0 = numeralValue digits := by
  induction digits with
  | nil => rfl
  | cons c rest ih =>
    rw [Nat.ofDigitChars_cons, Nat.ofDigitChars_eq_ofDigitChars_zero, ih, numeralValue,
      Nat.mul_zero, Nat.zero_add, Nat.mul_comm]

theorem numeral?_eq_some_iff {digits : List Char} {n : Nat} :
    numeral? digits = some n ↔ IsNumeral digits ∧ numeralValue digits = n := by
  simp [numeral?, IsNumeral, isDigit_iff, ofDigitChars_eq_numeralValue]

theorem integer?_eq_some_iff {text : List Char} {value : Int} :
    integer? text = some value ↔ IsInteger text value := by
  constructor
  · intro read
    unfold integer? at read
    split at read
    · obtain ⟨n, known, rfl⟩ := Option.map_eq_some_iff.mp read
      obtain ⟨numeral, rfl⟩ := numeral?_eq_some_iff.mp known
      exact .positive numeral
    · obtain ⟨n, known, rfl⟩ := Option.map_eq_some_iff.mp read
      obtain ⟨numeral, rfl⟩ := numeral?_eq_some_iff.mp known
      exact .negative numeral
    · obtain ⟨n, known, rfl⟩ := Option.map_eq_some_iff.mp read
      obtain ⟨numeral, rfl⟩ := numeral?_eq_some_iff.mp known
      exact .unsigned numeral
  · intro form
    cases form with
    | unsigned numeral =>
      rw [integer?_of_isDigit fun c member => isDigit_iff.mpr (numeral.2 c member),
        numeral?_eq_some_iff.mpr ⟨numeral, rfl⟩]
      rfl
    | positive numeral | negative numeral =>
      rw [integer?, numeral?_eq_some_iff.mpr ⟨numeral, rfl⟩]
      rfl

/-- The value of digits behind others that come to `sum`, put together from the left in a number
    that has to stay below `limit`. -/
def valueBelow? (limit sum : Nat) : List Char → Option Nat
  | [] => some sum
  | c :: rest =>
    if 10 * sum < limit then
      if 10 * sum + (c.toNat - '0'.toNat) < limit then
        valueBelow? limit (10 * sum + (c.toNat - '0'.toNat)) rest
      else none
    else none

theorem le_ofDigitChars (digits : List Char) (sum : Nat) :
    sum ≤ Nat.ofDigitChars 10 digits sum := by
  rw [Nat.ofDigitChars_eq_ofDigitChars_zero]
  exact Nat.le_add_right_of_le (Nat.le_mul_of_pos_left sum (Nat.pow_pos (by decide)))

theorem valueBelow?_eq_ofDigitChars {limit sum : Nat} (small : sum < limit) (digits : List Char) :
    valueBelow? limit sum digits =
      if Nat.ofDigitChars 10 digits sum < limit then some (Nat.ofDigitChars 10 digits sum)
      else none := by
  induction digits generalizing sum with
  | nil => rw [valueBelow?, Nat.ofDigitChars_nil, if_pos small]
  | cons c rest ih =>
    rw [valueBelow?, Nat.ofDigitChars_cons]
    by_cases fits : 10 * sum + (c.toNat - '0'.toNat) < limit
    · rw [if_pos (Nat.lt_of_le_of_lt (Nat.le_add_right _ _) fits), if_pos fits, ih fits]
    · -- What has become too large stays too large, whatever digits follow.
      have large := le_ofDigitChars rest (10 * sum + (c.toNat - '0'.toNat))
      rw [if_neg fits, ite_self, if_neg (by omega)]

theorem valueBelow?_eq {limit : Nat} (positive : 0 < limit) (digits : List Char) :
    valueBelow? limit 0 digits =
      if numeralValue digits < limit then some (numeralValue digits) else none := by
  rw [valueBelow?_eq_ofDigitChars positive, ofDigitChars_eq_numeralValue]

def withoutSign : List Char → List Char
  | '+' :: digits => digits
  | '-' :: digits => digits
  | digits => digits

def integerWithin? (limit : Nat) : List Char → Option Int
  | '+' :: digits => (valueBelow? limit 0 digits).map Int.ofNat
  | '-' :: digits => (valueBelow? (limit + 1) 0 digits).map fun n => -Int.ofNat n
  | digits => (valueBelow? limit 0 digits).map Int.ofNat

theorem not_isNumeral_cons {c : Char} (other : ¬ ('0' ≤ c ∧ c ≤ '9')) (rest : List Char) :
    ¬ IsNumeral (c :: rest) :=
  fun numeral => other (numeral.2 c List.mem_cons_self)

theorem withoutSign_of_isNumeral {digits : List Char} (numeral : IsNumeral digits) :
    withoutSign digits = digits := by
  unfold withoutSign
  split
  · exact absurd numeral (not_isNumeral_cons (by decide) _)
  · exact absurd numeral (not_isNumeral_cons (by decide) _)
  · rfl

theorem integerWithin?_of_isNumeral {limit : Nat} {digits : List Char}
    (numeral : IsNumeral digits) :
    integerWithin? limit digits = (valueBelow? limit 0 digits).map Int.ofNat := by
  unfold integerWithin?
  split
  · exact absurd numeral (not_isNumeral_cons (by decide) _)
  · exact absurd numeral (not_isNumeral_cons (by decide) _)
  · rfl

theorem isNumeral_withoutSign_iff {text : List Char} :
    IsNumeral (withoutSign text) ↔ ∃ value, IsInteger text value := by
  constructor
  · intro numeral
    unfold withoutSign at numeral
    split at numeral
    · exact ⟨_, .positive numeral⟩
    · exact ⟨_, .negative numeral⟩
    · exact ⟨_, .unsigned numeral⟩
  · rintro ⟨value, form⟩
    cases form with
    | unsigned numeral => rwa [withoutSign_of_isNumeral numeral]
    | positive numeral | negative numeral => exact numeral

theorem valueBelow?_toInt {limit : Nat} (positive : 0 < limit) (digits : List Char) :
    (valueBelow? limit 0 digits).map Int.ofNat =
      if -(limit : Int) ≤ numeralValue digits ∧ (numeralValue digits : Int) < limit then
        some (numeralValue digits : Int)
      else none := by
  rw [valueBelow?_eq positive]
  by_cases small : numeralValue digits < limit
  · rw [if_pos small, if_pos (by omega)]
    rfl
  · rw [if_neg small, if_neg (by omega)]
    rfl

theorem integerWithin?_eq {limit : Nat} (positive : 0 < limit) {text : List Char} {value : Int}
    (form : IsInteger text value) :
    integerWithin? limit text =
      if -(limit : Int) ≤ value ∧ value < limit then some value else none := by
  cases form with
  | unsigned numeral => rw [integerWithin?_of_isNumeral numeral, valueBelow?_toInt positive]
  | positive numeral => exact valueBelow?_toInt positive _
  | @negative digits numeral =>
    -- There is one more number below zero than above.
    rw [integerWithin?, valueBelow?_eq (Nat.succ_pos limit)]
    by_cases small : numeralValue digits < limit + 1
    · rw [if_pos small, if_pos (by omega)]
      rfl
    · rw [if_neg small, if_neg (by omega)]
      rfl

end WordMachine
