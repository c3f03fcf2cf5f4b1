import WordMachine.Encoding.Field

/-!
The layouts of the five shapes that carry operands, from the most significant bit:

    R        opcode 7, rd 5, rs1 5, rs2 5, funct 3, reserved 7
    I        opcode 7, rd 5, rs1 5, immediate 12, funct 3
    S/B      opcode 7, rs1 5, rs2 5, immediate 12, funct 3
    U/J      opcode 7, rd 5, immediate 20
    Legacy   opcode 7, value 5, base 5, offset 5, reserved 10

`encode` builds a word, and refuses an opcode of another shape before it looks at the operands.
`ofWord` reads the operands of any word, `decode` the opcode too. Reserved bits are written as zeros
and ignored when read.
-/

namespace WordMachine

structure RFields where
  rd : Register
  rs1 : Register
  rs2 : Register
  funct : Funct
  deriving DecidableEq, Repr

structure IFields where
  rd : Register
  rs1 : Register
  imm : Imm 12
  funct : Funct
  deriving DecidableEq, Repr

/-- A store has its base in `rs1` and the value in `rs2`; a branch compares the two. -/
structure SBFields where
  rs1 : Register
  rs2 : Register
  imm : Imm 12
  funct : Funct
  deriving DecidableEq, Repr

structure UJFields where
  rd : Register
  imm : Imm 20
  deriving DecidableEq, Repr

structure LegacyFields where
  value : Register
  base : Register
  offset : Register
  deriving DecidableEq, Repr

namespace Layout

def firstAt : Nat := 7
def secondAt : Nat := 12
def thirdAt : Nat := 17
def innerFunctAt : Nat := 22
def lastFunctAt : Nat := 29
def longImmAt : Nat := 12

def checkShape (opcode : Opcode) (shape : Shape) : Except EncodingError Unit :=
  if opcode.shape = shape then .ok () else .error (.wrongShape opcode shape)

def decode {α : Type} (operands : Word → α) (word : Word) : Except DecodeError (Opcode × α) :=
  match Opcode.ofWord word with
  | .ok opcode => .ok (opcode, operands word)
  | .error code => .error (.unknownOpcode code)

end Layout

open Layout

def RFields.encode (opcode : Opcode) (f : RFields) : Except EncodingError Word := do
  checkShape opcode .r
  let word ← Field.register.pack opcode.toWord firstAt f.rd
  let word ← Field.register.pack word secondAt f.rs1
  let word ← Field.register.pack word thirdAt f.rs2
  Field.funct.pack word innerFunctAt f.funct

def RFields.ofWord (word : Word) : RFields where
  rd := Field.register.read word firstAt
  rs1 := Field.register.read word secondAt
  rs2 := Field.register.read word thirdAt
  funct := Field.funct.read word innerFunctAt

def IFields.encode (opcode : Opcode) (f : IFields) : Except EncodingError Word := do
  checkShape opcode .i
  let word ← Field.register.pack opcode.toWord firstAt f.rd
  let word ← Field.register.pack word secondAt f.rs1
  let word ← (Field.imm 12).pack word thirdAt f.imm
  Field.funct.pack word lastFunctAt f.funct

def IFields.ofWord (word : Word) : IFields where
  rd := Field.register.read word firstAt
  rs1 := Field.register.read word secondAt
  imm := (Field.imm 12).read word thirdAt
  funct := Field.funct.read word lastFunctAt

def SBFields.encode (opcode : Opcode) (f : SBFields) : Except EncodingError Word := do
  checkShape opcode .sb
  let word ← Field.register.pack opcode.toWord firstAt f.rs1
  let word ← Field.register.pack word secondAt f.rs2
  let word ← (Field.imm 12).pack word thirdAt f.imm
  Field.funct.pack word lastFunctAt f.funct

def SBFields.ofWord (word : Word) : SBFields where
  rs1 := Field.register.read word firstAt
  rs2 := Field.register.read word secondAt
  imm := (Field.imm 12).read word thirdAt
  funct := Field.funct.read word lastFunctAt

def UJFields.encode (opcode : Opcode) (f : UJFields) : Except EncodingError Word := do
  checkShape opcode .uj
  let word ← Field.register.pack opcode.toWord firstAt f.rd
  (Field.imm 20).pack word longImmAt f.imm

def UJFields.ofWord (word : Word) : UJFields where
  rd := Field.register.read word firstAt
  imm := (Field.imm 20).read word longImmAt

def LegacyFields.encode (opcode : Opcode) (f : LegacyFields) : Except EncodingError Word := do
  checkShape opcode .legacy
  let word ← Field.register.pack opcode.toWord firstAt f.value
  let word ← Field.register.pack word secondAt f.base
  Field.register.pack word thirdAt f.offset

def LegacyFields.ofWord (word : Word) : LegacyFields where
  value := Field.register.read word firstAt
  base := Field.register.read word secondAt
  offset := Field.register.read word thirdAt

end WordMachine
