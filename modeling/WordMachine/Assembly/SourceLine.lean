/-!
The lines of a text of assembly. A line ends at a line feed, and a carriage return directly before
the line feed belongs to the ending; one anywhere else is part of the line. Nothing follows the last
line feed unless there are characters there.

A line holds a name and operands, or nothing. Operands are separated by blanks or by one comma with
blanks around it, and a `#` starts a comment that takes the rest of the line. Space and tab are the
blanks, and a token may hold any character but blanks, commas and `#`. White space in general, the
twenty-five characters with the property White_Space, only matters to `trim`.
-/

namespace WordMachine

def lines : List Char → List (List Char)
  | [] => []
  | '\r' :: '\n' :: rest => [] :: lines rest
  | '\n' :: rest => [] :: lines rest
  | c :: rest =>
    match lines rest with
    | [] => [[c]]
    | line :: more => (c :: line) :: more

example : lines ['a', '\r', '\r', '\n', '\n', 'b', '\r'] = [['a', '\r'], [], ['b', '\r']] := by
  decide

/-- First and last code points of each range with the property White_Space. -/
def whiteSpaceRanges : List (Nat × Nat) :=
  [(0x09, 0x0D), (0x20, 0x20), (0x85, 0x85), (0xA0, 0xA0), (0x1680, 0x1680), (0x2000, 0x200A),
   (0x2028, 0x2029), (0x202F, 0x202F), (0x205F, 0x205F), (0x3000, 0x3000)]

def isWhiteSpace (c : Char) : Bool :=
  whiteSpaceRanges.any fun (first, last) => first ≤ c.toNat && c.toNat ≤ last

def trim (text : List Char) : List Char :=
  ((text.dropWhile isWhiteSpace).reverse.dropWhile isWhiteSpace).reverse

example : (whiteSpaceRanges.map fun (first, last) => last + 1 - first).sum = 25 := by decide

inductive Lexeme where
  | comma
  | token (text : String)
  deriving DecidableEq, Repr

inductive SourceLine where
  | blank
  | operation (name : String) (operands : List String)
  deriving DecidableEq, Repr

def isBlank (c : Char) : Bool := c = ' ' || c = '\t'

def isTokenChar (c : Char) : Bool := !(isBlank c || c = ',' || c = '#')

namespace Lexeme

def close (run : List Char) (rest : List Lexeme) : List Lexeme :=
  if run = [] then rest else .token (String.ofList run.reverse) :: rest

/-- The lexemes of a line. `run` is the token under way, its last character first. -/
def scan (run : List Char) : List Char → List Lexeme
  | [] => close run []
  | c :: rest =>
    if c = '#' then close run []
    else if c = ',' then close run (.comma :: scan [] rest)
    else if isBlank c then close run (scan [] rest)
    else scan (c :: run) rest

def operands? : List Lexeme → Option (List String)
  | [] => some []
  | .token text :: rest => (operands? rest).map (text :: ·)
  | .comma :: .token text :: rest => (operands? rest).map (text :: ·)
  | .comma :: _ => none

end Lexeme

namespace SourceLine

def ofLexemes? : List Lexeme → Option SourceLine
  | [] => some .blank
  | .token name :: rest => (Lexeme.operands? rest).map (.operation name)
  | .comma :: _ => none

/-- Nothing for a line with a comma that is not between two tokens. -/
def read? (line : List Char) : Option SourceLine := ofLexemes? (Lexeme.scan [] line)

end SourceLine

end WordMachine
