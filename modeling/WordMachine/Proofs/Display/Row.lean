import WordMachine.Display
import WordMachine.Proofs.Assembly.Listing
import WordMachine.Proofs.Text.Numeral

/-!
What the cells of a row say. They name the register or the address, they give its contents in full,
and where the program counter points there they carry a mark, so no two rows have the same cells.
-/

namespace WordMachine

attribute [ext] RegisterRow MemoryRow

theorem Register.text_injective {r s : Register} (same : r.text = s.text) : r = s := by
  cases r with
  | x n =>
    have read := OperandKind.readRegister_text n
    rw [same] at read
    cases s with
    | x k => exact Except.ok.inj (read.symm.trans (OperandKind.readRegister_text k))
    | pc => cases read
  | pc =>
    cases s with
    | x k =>
      have read := OperandKind.readRegister_text k
      rw [← same] at read
      cases read
    | pc => rfl

theorem Mnemonic.text_ne_dash (mnemonic : Mnemonic) : mnemonic.text ≠ "-" := by
  cases mnemonic <;> decide

theorem Instruction.text_ne_dash (i : Instruction) : i.text ≠ "-" := by
  intro dash
  have read := i.read?_text
  rw [dash] at read
  have name : "-" = i.mnemonic.text := (SourceLine.operation.inj (Option.some.inj read)).1
  exact i.mnemonic.text_ne_dash name.symm

def isMarked (cells : List Cell) : Bool :=
  cells.any fun cell => cell.lines.any fun line => "* -->".toList.isPrefixOf line.toList

namespace RegisterRow

theorem cells_eq (row : RegisterRow) :
    row.cells = [.right (row.register.text ++ " ="),
      .left (hexadecimal 8 row.value ++ " (" ++ decimal row.value.toInt ++ ")")] := rfl

theorem cells_injective {a b : RegisterRow} (same : a.cells = b.cells) : a = b := by
  rw [cells_eq, cells_eq] at same
  simp only [Cell.right, Cell.left, List.cons.injEq, Cell.mk.injEq, and_true, true_and,
    String.append_left_inj] at same
  obtain ⟨names, contents⟩ := same
  have register : a.register = b.register := Register.text_injective names
  have numerals : (hexadecimal 8 a.value).toList = (hexadecimal 8 b.value).toList := by
    have texts := congrArg String.toList contents
    simp only [String.toList_append, List.append_assoc] at texts
    -- Both numerals take ten characters, so the texts part at the same place.
    exact List.append_inj_left texts (by rw [length_hexadecimal_eight, length_hexadecimal_eight])
  exact RegisterRow.ext register (hexadecimal_injective (String.toList_inj.mp numerals))

end RegisterRow

namespace MemoryRow
open Instruction (decode)

theorem cells_eq (row : MemoryRow) :
    row.cells =
      [.right ((if row.current then "* --> " else "") ++ hexadecimal 4 row.address ++ " ="),
        .left (hexadecimal 8 row.word), .left row.disassembly] := by
  rcases row with ⟨_, _, _ | _⟩ <;> rfl

theorem disassembly_of_decode {row : MemoryRow} {i : Instruction}
    (decoded : decode row.word = .ok i) : row.disassembly = i.text := by
  rw [disassembly, decoded]

theorem disassembly_eq_dash_iff {row : MemoryRow} :
    row.disassembly = "-" ↔ ∃ error, decode row.word = .error error := by
  rw [disassembly]
  cases decode row.word with
  | ok i => simp [i.text_ne_dash]
  | error error => simp

theorem star_not_mem_disassembly (row : MemoryRow) : '*' ∉ row.disassembly.toList := by
  rw [disassembly]
  cases decode row.word with
  | ok i => exact fun member => absurd (Instruction.mem_text member) (by decide)
  | error error => exact (by decide : '*' ∉ "-".toList)

theorem isMarked_cells (row : MemoryRow) : isMarked row.cells = row.current := by
  have word : "* -->".toList.isPrefixOf (hexadecimal 8 row.word).toList = false := by
    rw [toList_hexadecimal]
    rfl
  have disassembly : "* -->".toList.isPrefixOf row.disassembly.toList = false := by
    cases marked : "* -->".toList.isPrefixOf row.disassembly.toList with
    | false => rfl
    | true =>
      have first := (List.isPrefixOf_iff_prefix.mp marked).subset (List.mem_cons_self ..)
      exact absurd first row.star_not_mem_disassembly
  have address : "* -->".toList.isPrefixOf ((if row.current then "* --> " else "") ++
      hexadecimal 4 row.address ++ " =").toList = row.current := by
    rw [String.toList_append, String.toList_append, toList_hexadecimal]
    cases row.current <;> rfl
  rw [cells_eq]
  simp only [isMarked, Cell.right, Cell.left, List.any_cons, List.any_nil, word, disassembly,
    address, Bool.or_false]

theorem cells_injective {a b : MemoryRow} (same : a.cells = b.cells) : a = b := by
  have current : a.current = b.current := by
    rw [← isMarked_cells a, ← isMarked_cells b, same]
  rw [cells_eq, cells_eq, current] at same
  simp only [Cell.right, Cell.left, List.cons.injEq, Cell.mk.injEq, and_true, true_and,
    String.append_left_inj, String.append_right_inj] at same
  obtain ⟨addresses, words, _⟩ := same
  exact MemoryRow.ext (hexadecimal_injective addresses) (hexadecimal_injective words) current

end MemoryRow

end WordMachine
