import Mathlib.Data.List.Basic
import WordMachine.Proofs.Assembly.Backtracking

/-!
What is on a line, told without a reader. A comment begins at the first `#`. In front of it a line
consists of tokens, which are the maximal runs of characters that are neither blanks nor commas,
and a comma is right only where it parts two of them.
-/

namespace WordMachine

def uncommented (line : List Char) : List Char := line.takeWhile (· ≠ '#')

def isGap (c : Char) : Bool := isBlank c || c = ','

def runs (text : List Char) : List String :=
  ((text.splitOnP isGap).filter (· ≠ [])).map String.ofList

/-- At the beginning, at the end, or next to another one. -/
def Misplaced {α : Type} (mark : α) (items : List α) : Prop :=
  items.head? = some mark ∨ items.getLast? = some mark ∨ [mark, mark] <:+: items

def SourceLine.ofRuns : List String → SourceLine
  | [] => .blank
  | name :: operands => .operation name operands

theorem ne_of_isBlank {c : Char} (blank : isBlank c = true) : c ≠ '#' := by
  rintro rfl
  cases blank

theorem ne_of_isTokenChar {c : Char} (valid : isTokenChar c = true) :
    isBlank c = false ∧ c ≠ ',' ∧ c ≠ '#' := by
  simpa only [isTokenChar, Bool.not_eq_true', Bool.or_eq_false_iff, decide_eq_false_iff_not,
    and_assoc] using valid

theorem uncommented_cons {c : Char} (other : c ≠ '#') (rest : List Char) :
    uncommented (c :: rest) = c :: uncommented rest := by
  simp [uncommented, other]

theorem runs_append_gap {c : Char} (gap : isGap c = true) (first rest : List Char) :
    runs (first ++ c :: rest) = runs first ++ runs rest := by
  rw [runs, List.splitOnP_append_cons first rest gap, List.filter_append, List.map_append, runs,
    runs]

theorem runs_of_isTokenChar {run : List Char} (valid : ∀ c ∈ run, isTokenChar c = true) :
    runs run = if run = [] then [] else [String.ofList run] := by
  have whole : run.splitOnP isGap = [run] := by
    apply List.splitOnP_eq_singleton
    intro c member
    obtain ⟨blank, comma, _⟩ := ne_of_isTokenChar (valid c member)
    simp [isGap, blank, comma]
  rw [runs, whole]
  by_cases empty : run = []
  · simp [empty]
  · simp [empty]

namespace Lexeme

def token? : Lexeme → Option String
  | .comma => none
  | .token text => some text

def chars : Lexeme → List Char
  | .comma => [',']
  | .token text => text.toList

def Valid : Lexeme → Prop
  | .comma => True
  | .token text => IsToken text

theorem flatMap_chars_close (run : List Char) (rest : List Lexeme) :
    (close run rest).flatMap chars = run.reverse ++ rest.flatMap chars := by
  by_cases empty : run = []
  · simp [close, empty]
  · simp [close, empty, chars]

theorem filterMap_token?_close {run : List Char} (valid : ∀ c ∈ run, isTokenChar c = true)
    (rest : List Lexeme) :
    (close run rest).filterMap token? = runs run.reverse ++ rest.filterMap token? := by
  rw [runs_of_isTokenChar fun c member => valid c (List.mem_reverse.mp member)]
  by_cases empty : run = []
  · simp [close, empty]
  · simp [close, empty, token?]

theorem flatMap_chars_scan (run line : List Char) :
    (scan run line).flatMap chars = run.reverse ++ (uncommented line).filter (!isBlank ·) := by
  induction line generalizing run with
  | nil => simp [scan, flatMap_chars_close, uncommented]
  | cons c rest ih =>
    rcases scan_cons run c rest with
      ⟨rfl, scanned⟩ | ⟨rfl, scanned⟩ | ⟨blank, scanned⟩ | ⟨valid, scanned⟩
    · simp [scanned, flatMap_chars_close, uncommented]
    · simp [scanned, flatMap_chars_close, uncommented_cons, chars, ih, isBlank]
    · rw [uncommented_cons (ne_of_isBlank blank)]
      simp [scanned, flatMap_chars_close, ih, blank]
    · rw [uncommented_cons (ne_of_isTokenChar valid).2.2]
      simp [scanned, ih, (ne_of_isTokenChar valid).1]

theorem filterMap_token?_scan {run : List Char} (valid : ∀ c ∈ run, isTokenChar c = true)
    (line : List Char) :
    (scan run line).filterMap token? = runs (run.reverse ++ uncommented line) := by
  induction line generalizing run with
  | nil => simp [scan, filterMap_token?_close valid, uncommented]
  | cons c rest ih =>
    have later : (scan [] rest).filterMap token? = runs (uncommented rest) := ih (by simp)
    rcases scan_cons run c rest with
      ⟨rfl, scanned⟩ | ⟨rfl, scanned⟩ | ⟨blank, scanned⟩ | ⟨next, scanned⟩
    · simp [scanned, filterMap_token?_close valid, uncommented]
    · rw [scanned, filterMap_token?_close valid, uncommented_cons (by decide),
        runs_append_gap (by decide), ← later]
      rfl
    · rw [scanned, filterMap_token?_close valid, uncommented_cons (ne_of_isBlank blank),
        runs_append_gap (by simp [isGap, blank]), later]
    · rw [scanned, uncommented_cons (ne_of_isTokenChar next).2.2,
        ih (List.forall_mem_cons.mpr ⟨next, valid⟩), List.reverse_cons, List.append_assoc,
        List.singleton_append]

theorem valid_of_mem_close {run : List Char} (valid : ∀ c ∈ run, isTokenChar c = true)
    {rest : List Lexeme} (later : ∀ lexeme ∈ rest, lexeme.Valid) :
    ∀ lexeme ∈ close run rest, lexeme.Valid := by
  rw [close]
  split
  · exact later
  · rename_i nonempty
    refine List.forall_mem_cons.mpr ⟨?_, later⟩
    rw [Valid, IsToken, String.toList_ofList]
    exact ⟨by simpa using nonempty, fun c inside => valid c (List.mem_reverse.mp inside)⟩

theorem valid_of_mem_scan {run : List Char} (valid : ∀ c ∈ run, isTokenChar c = true)
    (line : List Char) : ∀ lexeme ∈ scan run line, lexeme.Valid := by
  have nothing : ∀ lexeme ∈ ([] : List Lexeme), lexeme.Valid := by simp
  induction line generalizing run with
  | nil => exact valid_of_mem_close valid nothing
  | cons c rest ih =>
    rcases scan_cons run c rest with
      ⟨rfl, scanned⟩ | ⟨rfl, scanned⟩ | ⟨blank, scanned⟩ | ⟨next, scanned⟩
    · rw [scanned]
      exact valid_of_mem_close valid nothing
    · rw [scanned]
      exact valid_of_mem_close valid (List.forall_mem_cons.mpr ⟨trivial, ih (by simp)⟩)
    · rw [scanned]
      exact valid_of_mem_close valid (ih (by simp))
    · rw [scanned]
      exact ih (List.forall_mem_cons.mpr ⟨next, valid⟩)

theorem chars_ne_nil {lexeme : Lexeme} (valid : lexeme.Valid) : lexeme.chars ≠ [] := by
  cases lexeme with
  | comma => exact List.cons_ne_nil _ _
  | token text => exact valid.1

theorem comma_mem_chars_iff {lexeme : Lexeme} (valid : lexeme.Valid) :
    ',' ∈ lexeme.chars ↔ lexeme = comma := by
  cases lexeme with
  | comma => exact iff_of_true (List.mem_singleton_self _) rfl
  | token text =>
    refine iff_of_false (fun member => ?_) (by simp)
    exact (ne_of_isTokenChar (valid.2 ',' member)).2.1 rfl

theorem head?_flatMap_chars {lexemes : List Lexeme} (valid : ∀ lexeme ∈ lexemes, lexeme.Valid) :
    (lexemes.flatMap chars).head? = some ',' ↔ lexemes.head? = some comma := by
  cases lexemes with
  | nil => simp
  | cons first rest =>
    have known := valid first List.mem_cons_self
    rw [List.flatMap_cons, List.head?_append_of_ne_nil _ (chars_ne_nil known), List.head?_cons,
      Option.some.injEq]
    constructor
    · intro found
      exact (comma_mem_chars_iff known).mp (List.mem_of_head? found)
    · rintro rfl
      rfl

theorem getLast?_flatMap_chars {lexemes : List Lexeme}
    (valid : ∀ lexeme ∈ lexemes, lexeme.Valid) :
    (lexemes.flatMap chars).getLast? = some ',' ↔ lexemes.getLast? = some comma := by
  rcases lexemes.eq_nil_or_concat' with rfl | ⟨before, last, rfl⟩
  · simp
  · have known := valid last (by simp)
    rw [List.flatMap_append, List.flatMap_singleton,
      List.getLast?_append_of_ne_nil _ (chars_ne_nil known), List.getLast?_concat,
      Option.some.injEq]
    constructor
    · intro found
      exact (comma_mem_chars_iff known).mp (List.mem_of_getLast? found)
    · rintro rfl
      rfl

theorem pair_infix_cons {α : Type} {mark first : α} {rest : List α} :
    [mark, mark] <:+: first :: rest ↔
      first = mark ∧ rest.head? = some mark ∨ [mark, mark] <:+: rest := by
  rw [List.infix_cons_iff, List.cons_prefix_cons, eq_comm]
  cases rest with
  | nil => simp
  | cons second rest => simp [eq_comm]

theorem pair_infix_append {α : Type} {mark : α} {text : List α} (other : mark ∉ text)
    (rest : List α) : [mark, mark] <:+: text ++ rest ↔ [mark, mark] <:+: rest := by
  induction text with
  | nil => rfl
  | cons c text ih =>
    rw [List.mem_cons, not_or] at other
    rw [List.cons_append, pair_infix_cons, ih other.2]
    simp [Ne.symm other.1]

theorem pair_infix_flatMap_chars {lexemes : List Lexeme}
    (valid : ∀ lexeme ∈ lexemes, lexeme.Valid) :
    [',', ','] <:+: lexemes.flatMap chars ↔ [comma, comma] <:+: lexemes := by
  induction lexemes with
  | nil => simp
  | cons first rest ih =>
    obtain ⟨known, later⟩ := List.forall_mem_cons.mp valid
    rw [List.flatMap_cons, pair_infix_cons, ← ih later]
    cases first with
    | comma =>
      rw [chars, List.singleton_append, pair_infix_cons, head?_flatMap_chars later]
      simp
    | token text =>
      have other : ',' ∉ (token text).chars := by simp [comma_mem_chars_iff known]
      rw [pair_infix_append other]
      simp

theorem misplaced_flatMap_chars {lexemes : List Lexeme}
    (valid : ∀ lexeme ∈ lexemes, lexeme.Valid) :
    Misplaced ',' (lexemes.flatMap chars) ↔ Misplaced comma lexemes := by
  rw [Misplaced, Misplaced, head?_flatMap_chars valid, getLast?_flatMap_chars valid,
    pair_infix_flatMap_chars valid]

theorem getLast?_token_cons {text : String} {rest : List Lexeme} :
    (token text :: rest).getLast? = some comma ↔ rest.getLast? = some comma := by
  rw [List.getLast?_cons]
  cases rest.getLast? <;> simp

theorem operands?_eq_none_iff {lexemes : List Lexeme} :
    operands? lexemes = none ↔
      lexemes.getLast? = some comma ∨ [comma, comma] <:+: lexemes := by
  fun_induction operands? lexemes with
  | case1 => simp
  | case2 text rest ih =>
    rw [Option.map_eq_none_iff, ih, getLast?_token_cons, pair_infix_cons]
    simp
  | case3 text rest ih =>
    rw [Option.map_eq_none_iff, ih, List.getLast?_cons_cons, getLast?_token_cons,
      pair_infix_cons, pair_infix_cons]
    simp
  | case4 rest other =>
    cases rest with
    | nil => simp
    | cons second rest =>
      cases second with
      | comma => simp [pair_infix_cons]
      | token text => exact absurd rfl (other text rest)

theorem operands?_eq_some {lexemes : List Lexeme} {operands : List String}
    (read : operands? lexemes = some operands) : operands = lexemes.filterMap token? := by
  fun_induction operands? lexemes generalizing operands with
  | case1 =>
    cases read
    rfl
  | case2 text rest ih =>
    obtain ⟨more, known, rfl⟩ := Option.map_eq_some_iff.mp read
    rw [ih known]
    rfl
  | case3 text rest ih =>
    obtain ⟨more, known, rfl⟩ := Option.map_eq_some_iff.mp read
    rw [ih known]
    rfl
  | case4 => cases read

end Lexeme

namespace SourceLine
open Lexeme

theorem ofLexemes?_eq_none_iff {lexemes : List Lexeme} :
    ofLexemes? lexemes = none ↔ Misplaced comma lexemes := by
  cases lexemes with
  | nil => simp [ofLexemes?, Misplaced]
  | cons first rest =>
    cases first with
    | comma => exact iff_of_true rfl (Or.inl rfl)
    | token name =>
      rw [ofLexemes?, Option.map_eq_none_iff, operands?_eq_none_iff, Misplaced,
        getLast?_token_cons, pair_infix_cons]
      simp

theorem ofLexemes?_eq_some {lexemes : List Lexeme} {source : SourceLine}
    (read : ofLexemes? lexemes = some source) : source = ofRuns (lexemes.filterMap token?) := by
  cases lexemes with
  | nil =>
    cases read
    rfl
  | cons first rest =>
    cases first with
    | comma => cases read
    | token name =>
      obtain ⟨operands, known, rfl⟩ := Option.map_eq_some_iff.mp read
      rw [operands?_eq_some known]
      rfl

/-- A line cannot be read exactly if, its blanks disregarded, a comma in front of its comment is
    misplaced. Any other line says what its runs are, and the reader that goes from one thing to
    the next takes all of it and finds the same. -/
theorem read?_decided_by_commas (line : List Char) :
    (read? line = none ↔ Misplaced ',' ((uncommented line).filter (!isBlank ·))) ∧
    (¬ Misplaced ',' ((uncommented line).filter (!isBlank ·)) →
      read? line = some (ofRuns (runs (uncommented line)))) ∧
    LineReader.line line = (read? line).map fun source => ([], source.parts) := by
  have nothing : ∀ c ∈ ([] : List Char), isTokenChar c = true := by simp
  have misplaced : read? line = none ↔
      Misplaced ',' ((uncommented line).filter (!isBlank ·)) := by
    have spelled := flatMap_chars_scan [] line
    rw [List.reverse_nil, List.nil_append] at spelled
    rw [read?, ofLexemes?_eq_none_iff, ← spelled,
      misplaced_flatMap_chars (valid_of_mem_scan nothing line)]
  refine ⟨misplaced, fun right => ?_, LineReader.line_eq line⟩
  rw [← misplaced] at right
  obtain ⟨source, read⟩ := Option.ne_none_iff_exists'.mp right
  rw [read, ofLexemes?_eq_some read, filterMap_token?_scan nothing]
  rfl

theorem read?_decided_by_commas_before_comment :
    read? "add x1, # x2".toList = none ∧
    ¬ Misplaced ',' ((uncommented "\tadd x1 ,x2\tx3 # ,,".toList).filter (!isBlank ·)) ∧
    read? "\tadd x1 ,x2\tx3 # ,,".toList = some (.operation "add" ["x1", "x2", "x3"]) := by
  have marks : (uncommented "\tadd x1 ,x2\tx3 # ,,".toList).filter (!isBlank ·) =
      "addx1,x2x3".toList := rfl
  have right : ¬ Misplaced ',' "addx1,x2x3".toList := by simp [Misplaced, pair_infix_cons]
  rw [← marks] at right
  exact ⟨(read?_decided_by_commas _).1.mpr (Or.inr (Or.inl rfl)), right,
    (read?_decided_by_commas _).2.1 right⟩

end SourceLine

end WordMachine
