import WordMachine.Assembly.SourceLine

/-!
Reading of the two simplest kinds of line: tokens with one space between each two of them, and lines
with nothing to read on them.
-/

namespace WordMachine

def IsToken (text : String) : Prop :=
  text.toList ≠ [] ∧ ∀ c ∈ text.toList, isTokenChar c = true

def IsBlankLine : List Char → Prop
  | [] => True
  | c :: rest => c = '#' ∨ isBlank c = true ∧ IsBlankLine rest

instance decidableIsBlankLine : (line : List Char) → Decidable (IsBlankLine line)
  | [] => isTrue trivial
  | c :: rest =>
    have := decidableIsBlankLine rest
    inferInstanceAs (Decidable (c = '#' ∨ isBlank c = true ∧ IsBlankLine rest))

theorem IsBlankLine.of_append {line rest : List Char} (blank : IsBlankLine (line ++ rest)) :
    IsBlankLine line := by
  induction line with
  | nil => trivial
  | cons c line ih => exact blank.imp id fun ⟨space, blank⟩ => ⟨space, ih blank⟩

theorem mem_join {tokens : List String} {c : Char}
    (member : c ∈ (" ".intercalate tokens).toList) :
    c = ' ' ∨ ∃ token ∈ tokens, c ∈ token.toList := by
  induction tokens with
  | nil => cases member
  | cons token tokens ih =>
    cases tokens with
    | nil =>
      rw [String.intercalate_singleton] at member
      exact Or.inr ⟨token, List.mem_cons_self .., member⟩
    | cons next more =>
      rw [String.intercalate_cons_cons, String.toList_append, String.toList_append,
        List.mem_append, List.mem_append] at member
      rcases member with (first | space) | later
      · exact Or.inr ⟨token, List.mem_cons_self .., first⟩
      · exact Or.inl (List.mem_singleton.mp space)
      · rcases ih later with space | ⟨other, known, inside⟩
        · exact Or.inl space
        · exact Or.inr ⟨other, List.mem_cons_of_mem token known, inside⟩

namespace Lexeme

theorem scan_tokenChar {c : Char} (valid : isTokenChar c = true) (run rest : List Char) :
    scan run (c :: rest) = scan (c :: run) rest := by
  simp only [isTokenChar, Bool.not_eq_true', Bool.or_eq_false_iff, decide_eq_false_iff_not] at valid
  obtain ⟨⟨blank, comma⟩, comment⟩ := valid
  simp [scan, blank, comma, comment]

/-- What a character does to the lexemes: it begins the comment, it is a comma, it is a blank, or
    it belongs to the token under way. -/
theorem scan_cons (run : List Char) (c : Char) (rest : List Char) :
    (c = '#' ∧ scan run (c :: rest) = close run []) ∨
    (c = ',' ∧ scan run (c :: rest) = close run (.comma :: scan [] rest)) ∨
    (isBlank c = true ∧ scan run (c :: rest) = close run (scan [] rest)) ∨
    (isTokenChar c = true ∧ scan run (c :: rest) = scan (c :: run) rest) := by
  by_cases comment : c = '#'
  · exact Or.inl ⟨comment, by simp [scan, comment]⟩
  · by_cases comma : c = ','
    · exact Or.inr (Or.inl ⟨comma, by simp [scan, comma]⟩)
    · by_cases blank : isBlank c = true
      · exact Or.inr (Or.inr (Or.inl ⟨blank, by simp [scan, comment, comma, blank]⟩))
      · have valid : isTokenChar c = true := by simp [isTokenChar, comment, comma, blank]
        exact Or.inr (Or.inr (Or.inr ⟨valid, scan_tokenChar valid run rest⟩))

theorem scan_append {token : List Char} (valid : ∀ c ∈ token, isTokenChar c = true)
    (run rest : List Char) : scan run (token ++ rest) = scan (token.reverse ++ run) rest := by
  induction token generalizing run with
  | nil => rfl
  | cons c token ih =>
    rw [List.cons_append, scan_tokenChar (valid c (List.mem_cons_self ..)),
      ih fun d member => valid d (List.mem_cons_of_mem c member), List.reverse_cons,
      List.append_assoc, List.singleton_append]

theorem scan_space (run rest : List Char) : scan run (' ' :: rest) = close run (scan [] rest) := by
  simp [scan, isBlank]

theorem close_reverse {token : String} (nonempty : token.toList ≠ []) (rest : List Lexeme) :
    close token.toList.reverse rest = .token token :: rest := by
  simp [close, nonempty]

theorem scan_join {tokens : List String} (valid : ∀ token ∈ tokens, IsToken token) :
    scan [] (" ".intercalate tokens).toList = tokens.map .token := by
  induction tokens with
  | nil => rfl
  | cons token tokens ih =>
    obtain ⟨nonempty, chars⟩ := valid token (List.mem_cons_self ..)
    have rest := ih fun other member => valid other (List.mem_cons_of_mem token member)
    cases tokens with
    | nil =>
      have scanned := scan_append chars [] []
      rw [List.append_nil, List.append_nil] at scanned
      rw [String.intercalate_singleton, scanned]
      exact close_reverse nonempty []
    | cons next more =>
      rw [String.intercalate_cons_cons, String.toList_append, String.toList_append,
        List.append_assoc, scan_append chars, List.append_nil]
      rw [show " ".toList = [' '] from rfl, List.singleton_append, scan_space, rest]
      exact close_reverse nonempty _

theorem operands?_map_token (tokens : List String) :
    operands? (tokens.map .token) = some tokens := by
  induction tokens with
  | nil => rfl
  | cons token tokens ih => rw [List.map_cons, operands?, ih, Option.map_some]

theorem close_ne_nil {run : List Char} (nonempty : run ≠ []) (rest : List Lexeme) :
    close run rest ≠ [] := by
  simp [close, nonempty]

theorem scan_ne_nil {run : List Char} (nonempty : run ≠ []) (line : List Char) :
    scan run line ≠ [] := by
  induction line generalizing run with
  | nil => exact close_ne_nil nonempty []
  | cons c rest ih =>
    rw [scan]
    split
    · exact close_ne_nil nonempty []
    · split
      · exact close_ne_nil nonempty _
      · split
        · exact close_ne_nil nonempty _
        · exact ih (List.cons_ne_nil c run)

theorem scan_eq_nil_iff {line : List Char} : scan [] line = [] ↔ IsBlankLine line := by
  induction line with
  | nil => simp [scan, close, IsBlankLine]
  | cons c rest ih =>
    rw [scan, IsBlankLine]
    by_cases comment : c = '#'
    · simp [comment, close]
    · by_cases comma : c = ','
      · subst comma
        simp [close, isBlank]
      · by_cases blank : isBlank c = true
        · simp [comment, comma, blank, close, ih]
        · simp [comment, comma, blank, scan_ne_nil]

theorem scan_of_blank {filler : List Char} (blank : IsBlankLine filler) (run : List Char) :
    scan run filler = close run [] := by
  cases filler with
  | nil => rfl
  | cons c rest =>
    rcases blank with rfl | ⟨space, blank⟩
    · rfl
    · have others : c ≠ '#' ∧ c ≠ ',' := by
        constructor <;> rintro rfl <;> cases space
      rw [scan, if_neg others.1, if_neg others.2, if_pos space, scan_eq_nil_iff.mpr blank]

theorem scan_append_blank {filler : List Char} (blank : IsBlankLine filler)
    (run line : List Char) : scan run (line ++ filler) = scan run line := by
  induction line generalizing run with
  | nil => exact scan_of_blank blank run
  | cons c rest ih => rw [List.cons_append, scan, scan, ih, ih]

end Lexeme

theorem SourceLine.read?_append_blank {filler : List Char} (blank : IsBlankLine filler)
    (line : List Char) : read? (line ++ filler) = read? line := by
  rw [read?, Lexeme.scan_append_blank blank, read?]

theorem SourceLine.read?_join {name : String} {operands : List String}
    (valid : ∀ token ∈ name :: operands, IsToken token) :
    read? (" ".intercalate (name :: operands)).toList = some (.operation name operands) := by
  rw [read?, Lexeme.scan_join valid, List.map_cons, ofLexemes?, Lexeme.operands?_map_token,
    Option.map_some]

theorem SourceLine.read?_eq_blank_iff {line : List Char} :
    read? line = some .blank ↔ IsBlankLine line := by
  rw [← Lexeme.scan_eq_nil_iff, read?]
  cases Lexeme.scan [] line with
  | nil => simp [ofLexemes?]
  | cons lexeme rest =>
    cases lexeme with
    | comma => simp [ofLexemes?]
    | token name => simp [ofLexemes?]

end WordMachine
