import WordMachine.Assembly.Program
import WordMachine.Proofs.Assembly.SourceLine
import WordMachine.Proofs.Encoding.Immediate
import WordMachine.Proofs.Text.Numeral

/-!
Operands that are written and read back.
-/

namespace WordMachine

def isPlainChar (c : Char) : Bool := c = '-' || c.isAlphanum

def IsPlain (text : String) : Prop :=
  text.toList ≠ [] ∧ ∀ c ∈ text.toList, isPlainChar c = true

theorem isPlain_of_all {text : String} (nonempty : text.toList.isEmpty = false)
    (plain : text.toList.all isPlainChar = true) : IsPlain text := by
  refine ⟨?_, List.all_eq_true.mp plain⟩
  rwa [ne_eq, ← List.isEmpty_iff, Bool.not_eq_true]

theorem isPlainChar_of_isDigit {c : Char} (digit : c.isDigit = true) : isPlainChar c = true := by
  rw [isPlainChar, Char.isAlphanum, digit, Bool.or_true, Bool.or_true]

theorem isTokenChar_of_isPlainChar {c : Char} (plain : isPlainChar c = true) :
    isTokenChar c = true := by
  cases known : isTokenChar c with
  | true => rfl
  | false =>
    simp only [isTokenChar, isBlank, Bool.not_eq_false', Bool.or_eq_true,
      decide_eq_true_eq] at known
    rcases known with ((rfl | rfl) | rfl) | rfl <;> revert plain <;> decide

theorem IsPlain.isToken {text : String} (plain : IsPlain text) : IsToken text :=
  ⟨plain.1, fun c member => isTokenChar_of_isPlainChar (plain.2 c member)⟩

theorem isPlain_decimal (value : Int) : IsPlain (decimal value) := by
  refine ⟨decimal_ne_nil value, fun c member => ?_⟩
  rcases mem_decimal member with rfl | digit
  · rfl
  · exact isPlainChar_of_isDigit digit

theorem toList_text_x (n : Fin 32) :
    (Register.x n).text.toList = 'x' :: Nat.toDigits 10 n := by
  rw [Register.text, String.toList_append, toList_decimal_nonneg (Int.natCast_nonneg _)]
  rfl

theorem isPlain_text_register (r : Register) : IsPlain r.text := by
  cases r with
  | x n =>
    rw [IsPlain, toList_text_x]
    refine ⟨List.cons_ne_nil _ _, fun c member => ?_⟩
    rcases List.mem_cons.mp member with rfl | digit
    · rfl
    · exact isPlainChar_of_isDigit (isDigit_of_mem_toDigits digit)
  | pc => exact isPlain_of_all rfl rfl

namespace OperandKind

def write : (kind : OperandKind) → kind.Value → String
  | .register, r => r.text
  | .imm12, imm => imm.text
  | .imm20, imm => imm.text

/-- Of the operands only the program counter has no name in assembly. -/
def Named : (kind : OperandKind) → kind.Value → Prop
  | .register, r => r ≠ .pc
  | .imm12, _ => True
  | .imm20, _ => True

def writeAll : (kinds : List OperandKind) → Operands kinds → List String
  | [], _ => []
  | kind :: kinds, (value, values) => kind.write value :: writeAll kinds values

def NamedAll : (kinds : List OperandKind) → Operands kinds → Prop
  | [], _ => True
  | kind :: kinds, (value, values) => kind.Named value ∧ NamedAll kinds values

theorem isPlain_write (kind : OperandKind) (value : kind.Value) : IsPlain (kind.write value) := by
  cases kind with
  | register => exact isPlain_text_register value
  | imm12 | imm20 => exact isPlain_decimal _

theorem readRegister_text (n : Fin 32) : readRegister (Register.x n).text = .ok (.x n) := by
  simp only [readRegister, toList_text_x, numeral?_toDigits, n.isLt, ↓reduceDIte]

theorem readImmediate_text {width : Nat} (imm : Imm width) :
    readImmediate width imm.text = .ok imm := by
  simp only [readImmediate, Imm.text, integer?_decimal, Imm.ofInt?_value]

theorem read_write {kind : OperandKind} {value : kind.Value} (named : kind.Named value) :
    kind.read (kind.write value) = .ok value := by
  cases kind with
  | register =>
    cases value with
    | x n => exact readRegister_text n
    | pc => exact absurd rfl named
  | imm12 | imm20 => exact readImmediate_text _

theorem length_writeAll (kinds : List OperandKind) (values : Operands kinds) :
    (writeAll kinds values).length = kinds.length := by
  induction kinds with
  | nil => rfl
  | cons kind kinds ih => rw [writeAll, List.length_cons, List.length_cons, ih]

theorem isPlain_of_mem_writeAll {kinds : List OperandKind} {values : Operands kinds}
    {token : String} (member : token ∈ writeAll kinds values) : IsPlain token := by
  induction kinds with
  | nil => cases member
  | cons kind kinds ih =>
    rcases List.mem_cons.mp member with rfl | later
    · exact kind.isPlain_write values.1
    · exact ih later

theorem readAll_writeAll {kinds : List OperandKind} {values : Operands kinds}
    (named : NamedAll kinds values) :
    readAll kinds (writeAll kinds values) (length_writeAll kinds values) = .ok values := by
  induction kinds with
  | nil => rfl
  | cons kind kinds ih =>
    obtain ⟨value, values⟩ := values
    simp only [writeAll, readAll, read_write named.1, ih named.2]

theorem named_of_readRegister {token : String} {r : Register}
    (read : readRegister token = .ok r) : r ≠ .pc := by
  rintro rfl
  simp only [readRegister] at read
  split at read
  · split at read
    · split at read
      · cases read
      · cases read
    · cases read
  · cases read

theorem named_of_read {kind : OperandKind} {token : String} {value : kind.Value}
    (read : kind.read token = .ok value) : kind.Named value := by
  cases kind with
  | register => exact named_of_readRegister read
  | imm12 | imm20 => trivial

theorem namedAll_of_readAll {kinds : List OperandKind} {tokens : List String}
    {same : tokens.length = kinds.length} {values : Operands kinds}
    (read : readAll kinds tokens same = .ok values) : NamedAll kinds values := by
  induction kinds generalizing tokens with
  | nil => trivial
  | cons kind kinds ih =>
    cases tokens with
    | nil => cases same
    | cons token tokens =>
      rw [readAll] at read
      split at read
      · cases read
      · rename_i first
        split at read
        · cases read
        · rename_i rest
          cases read
          exact ⟨named_of_read first, ih rest⟩

end OperandKind

end WordMachine
