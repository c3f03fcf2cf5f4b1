import WordMachine.Word

/-!
Numerals as they are written and read, in decimal and in hexadecimal. Zeros in front of a
hexadecimal numeral count nothing, so two words have the same numeral only if they are the same
word.
-/

namespace WordMachine

theorem isDigit_of_mem_toDigits {n : Nat} {c : Char} (member : c ∈ Nat.toDigits 10 n) :
    c.isDigit = true :=
  Nat.isDigit_of_mem_toDigits (by decide) (by decide) member

theorem toList_decimal_neg {value : Int} (negative : value < 0) :
    (decimal value).toList = '-' :: Nat.toDigits 10 value.natAbs := by
  rw [decimal, if_pos negative, String.toList_ofList]

theorem toList_decimal_nonneg {value : Int} (nonnegative : 0 ≤ value) :
    (decimal value).toList = Nat.toDigits 10 value.natAbs := by
  rw [decimal, if_neg (Int.not_lt.mpr nonnegative), String.toList_ofList]

theorem integer?_of_isDigit {digits : List Char} (valid : ∀ c ∈ digits, c.isDigit = true) :
    integer? digits = (numeral? digits).map Int.ofNat := by
  unfold integer?
  split
  · exact absurd (valid '+' (List.mem_cons_self ..)) (by decide)
  · exact absurd (valid '-' (List.mem_cons_self ..)) (by decide)
  · rfl

theorem integer?_decimal (value : Int) : integer? (decimal value).toList = some value := by
  by_cases negative : value < 0
  · rw [toList_decimal_neg negative]
    simp only [integer?, numeral?_toDigits, Option.map_some, Option.some.injEq,
      Int.ofNat_eq_natCast]
    omega
  · have nonnegative : 0 ≤ value := Int.not_lt.mp negative
    rw [toList_decimal_nonneg nonnegative, integer?_of_isDigit fun _ => isDigit_of_mem_toDigits,
      numeral?_toDigits]
    simp only [Option.map_some, Option.some.injEq, Int.ofNat_eq_natCast]
    omega

theorem mem_decimal {value : Int} {c : Char} (member : c ∈ (decimal value).toList) :
    c = '-' ∨ c.isDigit = true := by
  by_cases negative : value < 0
  · rw [toList_decimal_neg negative, List.mem_cons] at member
    exact member.imp_right isDigit_of_mem_toDigits
  · rw [toList_decimal_nonneg (Int.not_lt.mp negative)] at member
    exact Or.inr (isDigit_of_mem_toDigits member)

theorem decimal_ne_nil (value : Int) : (decimal value).toList ≠ [] := by
  by_cases negative : value < 0
  · rw [toList_decimal_neg negative]
    exact List.cons_ne_nil _ _
  · rw [toList_decimal_nonneg (Int.not_lt.mp negative)]
    exact Nat.toDigits_ne_nil

def hexadecimalDigit (c : Char) : Nat :=
  if c.isDigit then c.toNat - '0'.toNat else c.toNat - 'a'.toNat + 10

def hexadecimalValue (sum : Nat) (digits : List Char) : Nat :=
  digits.foldl (fun sum c => 16 * sum + hexadecimalDigit c) sum

theorem hexadecimalDigit_digitChar {d : Nat} (small : d < 16) :
    hexadecimalDigit d.digitChar = d := by
  have each : ∀ d : Fin 16, hexadecimalDigit d.val.digitChar = d.val := by decide
  exact each ⟨d, small⟩

theorem hexadecimalValue_toDigits (n : Nat) : hexadecimalValue 0 (Nat.toDigits 16 n) = n := by
  induction n using Nat.strongRecOn with
  | ind n ih =>
    by_cases small : n < 16
    · rw [Nat.toDigits_of_lt_base small, hexadecimalValue, List.foldl_cons, List.foldl_nil,
        hexadecimalDigit_digitChar small, Nat.mul_zero, Nat.zero_add]
    · have large : 16 ≤ n := Nat.not_lt.mp small
      have front : hexadecimalValue 0 (Nat.toDigits 16 (n / 16)) = n / 16 := ih _ (by omega)
      rw [hexadecimalValue] at front
      rw [Nat.toDigits_of_base_le (by decide) large, hexadecimalValue, List.foldl_append, front,
        List.foldl_cons, List.foldl_nil, hexadecimalDigit_digitChar (Nat.mod_lt n (by decide))]
      exact Nat.div_add_mod n 16

theorem hexadecimalValue_leftpad (count : Nat) (digits : List Char) :
    hexadecimalValue 0 (digits.leftpad count '0') = hexadecimalValue 0 digits := by
  have zeros (k : Nat) : hexadecimalValue 0 (List.replicate k '0') = 0 := by
    induction k with
    | zero => rfl
    | succ k ih => exact ih
  rw [List.leftpad, hexadecimalValue, List.foldl_append]
  exact congrArg (hexadecimalValue · digits) (zeros _)

theorem toList_hexadecimal (digits : Nat) (word : Word) :
    (hexadecimal digits word).toList =
      '0' :: 'x' :: (Nat.toDigits 16 word.toNat).leftpad digits '0' := by
  simp only [hexadecimal, String.toList_append, String.toList_ofList]
  rfl

theorem hexadecimal_injective {digits : Nat} {a b : Word}
    (same : hexadecimal digits a = hexadecimal digits b) : a = b := by
  have texts := congrArg String.toList same
  rw [toList_hexadecimal, toList_hexadecimal] at texts
  have values := congrArg (hexadecimalValue 0) (List.cons.inj (List.cons.inj texts).2).2
  rw [hexadecimalValue_leftpad, hexadecimalValue_leftpad, hexadecimalValue_toDigits,
    hexadecimalValue_toDigits] at values
  exact BitVec.eq_of_toNat_eq values

theorem length_hexadecimal_eight (word : Word) : (hexadecimal 8 word).toList.length = 10 := by
  have few : (Nat.toDigits 16 word.toNat).length ≤ 8 :=
    (Nat.length_toDigits_le_iff (by decide) (by decide)).mpr word.isLt
  rw [toList_hexadecimal, List.length_cons, List.length_cons, List.length_leftpad]
  omega

end WordMachine
