import WordMachine.Assembly.Mnemonic
import WordMachine.Assembly.SourceLine

/-!
Assembly of a text: one word for each line that holds an operation, in the order of the lines, or
the error of the first line that has one, a cause and the number of the line. Among the operands, a
register is an `x` followed by decimal digits, an immediate is a decimal numeral with an optional
sign. A numeral may have any length; only its value is held against the range.
-/

namespace WordMachine

inductive AssemblyCause where
  | unknownOperation (token : String)
  | wrongOperandCount (mnemonic : Mnemonic) (expected found : Nat)
  | registerOutOfRange (token : String)
  | immediateOutOfRange (token : String) (bits : Nat)
  | expectedRegister (token : String)
  | expectedImmediate (token : String)
  | malformed (text : String)
  /-- The instruction has no word. The operands that a line can name leave no room for this. -/
  | unencodable (error : EncodingError)
  deriving DecidableEq, Repr

structure AssemblyError where
  /-- Counted from one. -/
  line : Nat
  cause : AssemblyCause
  deriving DecidableEq, Repr

def AssemblyCause.message : AssemblyCause → String
  | .unknownOperation token => s!"unrecognized operation `{token}`."
  | .wrongOperandCount mnemonic expected found =>
    s!"`{mnemonic.text}` requires {expected} operands but was given {found}."
  | .registerOutOfRange token => s!"register `{token}` is not one of x0..x31."
  | .immediateOutOfRange token bits => s!"immediate `{token}` does not fit in {bits} signed bits."
  | .expectedRegister token => s!"expected a register but found `{token}`."
  | .expectedImmediate token => s!"expected an immediate but found `{token}`."
  | .malformed text => s!"cannot parse `{text}`."
  | .unencodable error => error.message

def AssemblyError.message (error : AssemblyError) : String :=
  s!"Error on line {error.line}: {error.cause.message}"

namespace OperandKind

def readRegister (token : String) : Except AssemblyCause Register :=
  match token.toList with
  | 'x' :: digits =>
    match numeral? digits with
    | some number =>
      if bound : number < 32 then .ok (.x ⟨number, bound⟩) else .error (.registerOutOfRange token)
    | none => .error (.expectedRegister token)
  | _ => .error (.expectedRegister token)

def readImmediate (width : Nat) (token : String) : Except AssemblyCause (Imm width) :=
  match integer? token.toList with
  | some value =>
    match Imm.ofInt? width value with
    | some imm => .ok imm
    | none => .error (.immediateOutOfRange token width)
  | none => .error (.expectedImmediate token)

def read : (kind : OperandKind) → String → Except AssemblyCause kind.Value
  | .register, token => readRegister token
  | .imm12, token => readImmediate 12 token
  | .imm20, token => readImmediate 20 token

def readAll : (kinds : List OperandKind) → (tokens : List String) →
    tokens.length = kinds.length → Except AssemblyCause (Operands kinds)
  | [], _, _ => .ok ()
  | kind :: kinds, token :: tokens, same =>
    match kind.read token with
    | .error cause => .error cause
    | .ok value =>
      match readAll kinds tokens (Nat.succ.inj same) with
      | .error cause => .error cause
      | .ok values => .ok (value, values)

end OperandKind

namespace Assembly

/-- The instruction of a line. Of several things wrong with it the name counts first, then the
    number of operands, then the leftmost operand. -/
def instruction (name : String) (operands : List String) : Except AssemblyCause Instruction :=
  match Mnemonic.ofToken? name with
  | none => .error (.unknownOperation name)
  | some mnemonic =>
    if same : operands.length = mnemonic.operandKinds.length then
      match OperandKind.readAll mnemonic.operandKinds operands same with
      | .error cause => .error cause
      | .ok values => .ok (mnemonic.instruction values)
    else .error (.wrongOperandCount mnemonic mnemonic.operandKinds.length operands.length)

def assembleLine (line : List Char) : Except AssemblyCause (Option Word) :=
  match SourceLine.read? line with
  | none => .error (.malformed (String.ofList (trim line)))
  | some .blank => .ok none
  | some (.operation name operands) =>
    match instruction name operands with
    | .error cause => .error cause
    | .ok instruction =>
      match instruction.encode with
      | .error error => .error (.unencodable error)
      | .ok word => .ok (some word)

/-- The words of lines of which the first has the number `number`. -/
def assembleLines (number : Nat) : List (List Char) → Except AssemblyError (List Word)
  | [] => .ok []
  | line :: rest =>
    match assembleLine line with
    | .error cause => .error ⟨number, cause⟩
    | .ok word? =>
      match assembleLines (number + 1) rest with
      | .error error => .error error
      | .ok words => .ok (word?.toList ++ words)

end Assembly

def assemble (text : String) : Except AssemblyError (List Word) :=
  Assembly.assembleLines 1 (lines text.toList)

end WordMachine
