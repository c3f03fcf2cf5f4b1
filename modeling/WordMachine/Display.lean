import WordMachine.Instruction
import WordMachine.Machine.Basic

/-!
Tables of text, and the state of a machine in them. Every column of a table is as wide as its widest
cell, with a blank on either side; columns are parted by a bar, a rule runs below the titles and
another below the last row. A cell may take several lines, and the shorter cells of its row are
filled up with blank lines.

The state of a machine is its status, and side by side a table of its registers and one of its
memory. Registers and words that are zero are left out, but never the program counter nor the word
that it points to.
-/

namespace WordMachine

inductive Align where
  | left
  | right
  deriving DecidableEq, Repr

structure Cell where
  align : Align
  lines : List String
  deriving DecidableEq, Repr

structure Table where
  titles : List Cell
  rows : List (List Cell)
  deriving DecidableEq, Repr

def Align.pad (align : Align) (width : Nat) (text : String) : String :=
  let room := "".pushn ' ' (width - text.length)
  match align with
  | .left => text ++ room
  | .right => room ++ text

namespace Cell

def left (text : String) : Cell := ⟨.left, [text]⟩

def right (text : String) : Cell := ⟨.right, [text]⟩

def width (cell : Cell) : Nat := (cell.lines.map String.length).foldl max 0

def line (cell : Cell) (width number : Nat) : String :=
  cell.align.pad width (cell.lines[number]?.getD "")

end Cell

namespace Table

def widths (table : Table) : List Nat :=
  table.rows.foldl (fun widths row => List.zipWith max widths (row.map Cell.width))
    (table.titles.map Cell.width)

def bordered (bar : String) (parts : List String) : String := " " ++ bar.intercalate parts ++ " "

def rowLines (widths : List Nat) (row : List Cell) : List String :=
  let height := (row.map fun cell => cell.lines.length).foldl max 0
  (List.range height).map fun number =>
    bordered "│" (List.zipWith (fun width cell => " " ++ cell.line width number ++ " ") widths row)

def rule (crossing : String) (widths : List Nat) : String :=
  bordered crossing (widths.map fun width => "".pushn '─' (width + 2))

def lines (table : Table) : List String :=
  let widths := table.widths
  rowLines widths table.titles ++ [rule "┼" widths] ++ table.rows.flatMap (rowLines widths)
    ++ [rule "┴" widths]

end Table

structure RegisterRow where
  register : Register
  value : Word
  deriving DecidableEq, Repr

structure MemoryRow where
  address : Word
  word : Word
  /-- Whether the program counter points here. -/
  current : Bool
  deriving DecidableEq, Repr

namespace RegisterRow

def texts (row : RegisterRow) : String × String :=
  (s!"{row.register.text} =", s!"{hexadecimal 8 row.value} ({decimal row.value.toInt})")

def cells (row : RegisterRow) : List Cell :=
  let (name, contents) := row.texts
  [.right name, .left contents]

end RegisterRow

namespace MemoryRow

/-- The instruction of the word, or `-` where it stands for none. -/
def disassembly (row : MemoryRow) : String :=
  match Instruction.decode row.word with
  | .ok instruction => instruction.text
  | .error _ => "-"

def texts (row : MemoryRow) : String × String × String :=
  let address := s!"{hexadecimal 4 row.address} ="
  (if row.current then s!"* --> {address}" else address, hexadecimal 8 row.word, row.disassembly)

def cells (row : MemoryRow) : List Cell :=
  let (address, contents, disassembly) := row.texts
  [.right address, .left contents, .left disassembly]

end MemoryRow

namespace Machine

def registerRows (m : Machine) : List RegisterRow :=
  (Register.all.map fun r => ⟨r, m.registers.stored r⟩).filter fun row =>
    row.register = .pc || row.value ≠ 0

def memoryRows (m : Machine) : List MemoryRow :=
  (m.memory.words.toList.zipIdx.map fun (word, i) =>
    let address := BitVec.ofNat 32 (i * wordBytes)
    ⟨address, word, address = m.pc⟩).filter fun row => row.current || row.word ≠ 0

def registerTable (m : Machine) : Table where
  titles := [.right "Register", .left "Contents"]
  rows := m.registerRows.map RegisterRow.cells

def memoryTable (m : Machine) : Table where
  titles := [.right "Address", .left "Contents", .left "Disassembly"]
  rows := m.memoryRows.map MemoryRow.cells

def table (m : Machine) : Table where
  titles := [.left "Registers", .left "Memory"]
  rows := [[⟨.left, m.registerTable.lines⟩, ⟨.left, m.memoryTable.lines⟩]]

def display (m : Machine) : String :=
  String.join ((s!"Status: {m.status.text}" :: m.table.lines).map (· ++ "\n"))

end Machine

end WordMachine
