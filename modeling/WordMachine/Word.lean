/-!
Words of 32 bits, the only values that registers and memory hold, and the numbers that are read and
written with them. An address is a word too and counts bytes. Arithmetic on words wraps around.
Numbers are written in decimal, with a minus sign where negative, and words in lower-case
hexadecimal after `0x`; decimal numerals of any length are read, leading zeros included. A signed
immediate of `width` bits is held as its two's-complement bits, so every value of the type is in
range; `ofInt?` refuses the integers that are not.
-/

namespace WordMachine

abbrev Word := BitVec 32

def wordBits : Nat := 32

def wordBytes : Nat := 4

def lowMask (width : Nat) : Word := BitVec.allOnes 32 >>> (32 - width)

/-- The low `width` bits read as a signed number: they are moved to the top of the word, and the
    arithmetic shift back fills the room above them with copies of their highest bit. -/
def signExtend (bits : Word) (width : Nat) : Int :=
  ((bits <<< (32 - width)).sshiftRight (32 - width)).toInt

theorem getLsbD_lowMask (width i : Nat) (bound : i < 32) :
    (lowMask width).getLsbD i = decide (i < width) := by
  simp only [lowMask, BitVec.getLsbD_ushiftRight, BitVec.getLsbD_allOnes]
  apply decide_eq_decide.mpr
  omega

example : lowMask 3 = 7#32 ∧ lowMask 33 = BitVec.allOnes 32 := by decide

example : signExtend 0x800#32 12 = -2048 ∧ signExtend 0x7FF#32 12 = 2047 := by decide

def decimal (value : Int) : String :=
  if value < 0 then String.ofList ('-' :: Nat.toDigits 10 value.natAbs)
  else String.ofList (Nat.toDigits 10 value.natAbs)

def hexadecimal (digits : Nat) (word : Word) : String :=
  "0x" ++ String.ofList ((Nat.toDigits 16 word.toNat).leftpad digits '0')

def numeral? (digits : List Char) : Option Nat :=
  if digits ≠ [] ∧ digits.all Char.isDigit then some (Nat.ofDigitChars 10 digits 0) else none

def integer? : List Char → Option Int
  | '+' :: digits => (numeral? digits).map Int.ofNat
  | '-' :: digits => (numeral? digits).map fun n => -Int.ofNat n
  | digits => (numeral? digits).map Int.ofNat

theorem numeral?_toDigits (n : Nat) : numeral? (Nat.toDigits 10 n) = some n := by
  have digits : (Nat.toDigits 10 n).all Char.isDigit = true := by
    simp only [List.all_eq_true]
    intro c member
    exact Nat.isDigit_of_mem_toDigits (by decide) (by decide) member
  simp [numeral?, Nat.toDigits_ne_nil, digits, Nat.ofDigitChars_ten_toDigits]

example : hexadecimal 4 0xbeef5#32 = "0xbeef5" ∧ hexadecimal 4 0x1c#32 = "0x001c" := by decide

example : integer? ['-', '0', '7'] = some (-7) ∧ integer? ['+'] = none := by decide

structure Imm (width : Nat) where
  bits : BitVec width
  deriving DecidableEq, Repr

namespace Imm
variable {width : Nat}

def least (width : Nat) : Int := -Nat.pow 2 (width - 1)

def greatest (width : Nat) : Int := Nat.pow 2 (width - 1) - 1

def value (imm : Imm width) : Int := imm.bits.toInt

def ofInt? (width : Nat) (value : Int) : Option (Imm width) :=
  if least width ≤ value ∧ value ≤ greatest width then some ⟨BitVec.ofInt width value⟩ else none

def toWord (imm : Imm width) : Word := imm.bits.signExtend 32

def ofWord (width : Nat) (word : Word) : Imm width := ⟨word.setWidth width⟩

def text (imm : Imm width) : String := decimal imm.value

example : (ofInt? 12 (-2048)).map toWord = some 0xFFFFF800#32 ∧ ofInt? 12 2048 = none := by decide

end Imm

end WordMachine
