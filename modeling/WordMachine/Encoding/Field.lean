import WordMachine.Opcode
import WordMachine.Register

/-!
Fields of a word. A field of width `w` at offset `a` takes the bits from `32 - a - w` up to, and
without, `32 - a`: offsets count from the most significant bit. Packing checks the value first and
then that the field lies within the word, and leaves all other bits as they are. An `EncodingError`,
a value without a place in a word, is a mistake of the caller; a `DecodeError` is a property of the
word.
-/

namespace WordMachine

inductive EncodingError where
  | wrongShape (opcode : Opcode) (shape : Shape)
  | programCounter
  | functTooWide (funct : Nat)
  | notGeneral (number : Nat)
  | fieldOverrun (width offset : Nat)
  deriving DecidableEq, Repr

def EncodingError.message : EncodingError → String
  | .wrongShape opcode shape =>
    internal (s!"opcode `{opcode.text}` has the {opcode.shape.text} shape " ++
      s!"but was encoded as {shape.text}.")
  | .programCounter => internal "pc cannot be encoded in a 5-bit register field."
  | .functTooWide funct => internal s!"funct {funct} does not fit in 3 bits."
  | .notGeneral number => internal s!"x{number} is not a general register."
  | .fieldOverrun width offset => s!"A {width}-bit field at offset {offset} does not fit in a word."
where
  internal (text : String) : String := "internal error: entered unreachable code: Error: " ++ text

inductive DecodeError where
  | unknownOpcode (code : Nat)
  | unboundFunct (opcode : Opcode) (funct : Nat)
  deriving DecidableEq, Repr

def DecodeError.message : DecodeError → String
  | .unknownOpcode code => s!"no operation is bound to opcode {code}"
  | .unboundFunct opcode funct =>
    s!"no operation is bound to funct {funct} of opcode `{opcode.text}`"

structure Field (α : Type) where
  width : Nat
  /-- Of the bits given, packing keeps the low `width`. -/
  toBits : α → Except EncodingError Word
  /-- Reads a word that is zero above its low `width` bits. -/
  ofBits : Word → α

structure Funct where
  code : Nat
  deriving DecidableEq, Repr

namespace Field
variable {α : Type}

def checkFits (width offset : Nat) : Except EncodingError Unit :=
  if offset + width ≤ wordBits then .ok () else .error (.fieldOverrun width offset)

def pack (f : Field α) (word : Word) (offset : Nat) (value : α) : Except EncodingError Word := do
  let bits ← f.toBits value
  checkFits f.width offset
  return word ||| ((bits &&& lowMask f.width) <<< (wordBits - offset - f.width))

def read (f : Field α) (word : Word) (offset : Nat) : α :=
  f.ofBits ((word >>> (wordBits - offset - f.width)) &&& lowMask f.width)

def unpack (f : Field α) (word : Word) (offset : Nat) : Except EncodingError α := do
  checkFits f.width offset
  return f.read word offset

def register : Field Register where
  width := 5
  toBits
    | .x number => .ok (BitVec.ofNat 32 number)
    | .pc => .error .programCounter
  ofBits bits := .x ⟨bits.toNat % 32, Nat.mod_lt _ (by decide)⟩

def funct : Field Funct where
  width := 3
  toBits funct :=
    if funct.code < 8 then .ok (BitVec.ofNat 32 funct.code) else .error (.functTooWide funct.code)
  ofBits bits := ⟨bits.toNat⟩

def imm (width : Nat) : Field (Imm width) where
  width := width
  toBits imm := .ok imm.toWord
  ofBits := Imm.ofWord width

def raw (width : Nat) : Field Word where
  width := width
  toBits := .ok
  ofBits bits := bits

end Field

def Register.general (number : Nat) : Except EncodingError Register :=
  if bound : number < 32 then .ok (.x ⟨number, bound⟩) else .error (.notGeneral number)

end WordMachine
