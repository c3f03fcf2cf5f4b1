import Mathlib.Data.List.Forall2
import WordMachine.Assembly.SourceLine

/-!
The lines of a text, one line at a time.
-/

namespace WordMachine

theorem lines_cons {c : Char} {rest : List Char} (other : c ≠ '\n')
    (inside : ¬ (c = '\r' ∧ rest.head? = some '\n')) :
    lines (c :: rest) =
      match lines rest with
      | [] => [[c]]
      | line :: more => (c :: line) :: more := by
  apply lines.eq_4
  · rintro tail rfl rfl
    exact inside ⟨rfl, rfl⟩
  · exact other

theorem getLast?_tail_ne {c d : Char} {tail : List Char} (last : (c :: tail).getLast? ≠ some d) :
    tail.getLast? ≠ some d := by
  intro tailLast
  cases tail with
  | nil => cases tailLast
  | cons first more => exact last (by rwa [List.getLast?_cons_cons])

theorem lines_cons_append {c : Char} {tail : List Char} (other : c ≠ '\n')
    (inside : ∀ more, c = '\r' → tail ≠ '\n' :: more)
    (noReturn : (c :: tail).getLast? ≠ some '\r') (rest : List Char) :
    lines (c :: (tail ++ '\n' :: rest)) =
      match lines (tail ++ '\n' :: rest) with
      | [] => [[c]]
      | line :: more => (c :: line) :: more := by
  apply lines_cons other
  -- A carriage return in front of the feed would be the last character of the text.
  rintro ⟨rfl, first⟩
  cases tail with
  | nil => exact noReturn rfl
  | cons d more =>
    cases first
    exact inside more rfl rfl

theorem lines_append_feed {line : List Char} (noFeed : '\n' ∉ line)
    (noReturn : line.getLast? ≠ some '\r') (rest : List Char) :
    lines (line ++ '\n' :: rest) = line :: lines rest := by
  induction line with
  | nil => simp [lines]
  | cons c tail ih =>
    simp only [List.mem_cons, not_or] at noFeed
    have inside : ∀ more, c = '\r' → tail ≠ '\n' :: more := by
      rintro more _ rfl
      exact noFeed.2 (List.mem_cons_self ..)
    rw [List.cons_append, lines_cons_append (Ne.symm noFeed.1) inside noReturn,
      ih noFeed.2 (getLast?_tail_ne noReturn)]

theorem lines_append_returnFeed {line : List Char} (noFeed : '\n' ∉ line) (rest : List Char) :
    lines (line ++ '\r' :: '\n' :: rest) = line :: lines rest := by
  induction line with
  | nil => rw [List.nil_append, lines]
  | cons c tail ih =>
    simp only [List.mem_cons, not_or] at noFeed
    have inside : ¬ (c = '\r' ∧ (tail ++ '\r' :: '\n' :: rest).head? = some '\n') := by
      rintro ⟨_, first⟩
      cases tail with
      | nil => cases first
      | cons d more =>
        cases first
        exact noFeed.2 (List.mem_cons_self ..)
    rw [List.cons_append, lines_cons (Ne.symm noFeed.1) inside, ih noFeed.2]

theorem lines_of_noFeed {line : List Char} (nonempty : line ≠ []) (noFeed : '\n' ∉ line) :
    lines line = [line] := by
  induction line with
  | nil => exact absurd rfl nonempty
  | cons c tail ih =>
    simp only [List.mem_cons, not_or] at noFeed
    have inside : ¬ (c = '\r' ∧ tail.head? = some '\n') := by
      rintro ⟨_, first⟩
      exact noFeed.2 (List.mem_of_mem_head? first)
    rw [lines_cons (Ne.symm noFeed.1) inside]
    cases tail with
    | nil => rfl
    | cons d more => rw [ih (List.cons_ne_nil d more) noFeed.2]

/-- A text in front of a line feed keeps its lines. One more comes after them, an empty one, where
    nothing stands between the last line feed of the text and the new one. -/
theorem lines_append_text {text : List Char} (noReturn : text.getLast? ≠ some '\r') :
    ∃ ending, (ending = [] ∨ ending = [[]]) ∧
      (lines text ++ ending).length = text.count '\n' + 1 ∧
      ∀ rest, lines (text ++ '\n' :: rest) = lines text ++ ending ++ lines rest := by
  fun_induction lines text with
  | case1 => exact ⟨[[]], Or.inr rfl, rfl, fun rest => by rw [List.nil_append, lines]; rfl⟩
  | case2 tail ih =>
    obtain ⟨ending, known, counted, joined⟩ := ih (getLast?_tail_ne (getLast?_tail_ne noReturn))
    refine ⟨ending, known, ?_, fun rest => ?_⟩
    · simp [counted]
    · rw [List.cons_append, List.cons_append, lines, joined]
      rfl
  | case3 tail ih =>
    obtain ⟨ending, known, counted, joined⟩ := ih (getLast?_tail_ne noReturn)
    refine ⟨ending, known, ?_, fun rest => ?_⟩
    · simp [counted]
    · rw [List.cons_append, lines, joined]
      rfl
  | case4 c tail inside other noLine ih =>
    -- The last line begins here: it is the empty line that the tail alone would have ended with.
    obtain ⟨ending, known, counted, joined⟩ := ih (getLast?_tail_ne noReturn)
    rw [noLine] at counted
    rcases known with rfl | rfl
    · simp at counted
    · refine ⟨[], Or.inl rfl, ?_, fun rest => ?_⟩
      · rwa [List.count_cons_of_ne other]
      · rw [List.cons_append, lines_cons_append other inside noReturn, joined, noLine]
        rfl
  | case5 c tail inside other line more someLine ih =>
    obtain ⟨ending, known, counted, joined⟩ := ih (getLast?_tail_ne noReturn)
    refine ⟨ending, known, ?_, fun rest => ?_⟩
    · rw [List.count_cons_of_ne other, ← counted, someLine]
      rfl
    · rw [List.cons_append, lines_cons_append other inside noReturn, joined, someLine]
      rfl

theorem mem_of_mem_splitOn {sep c : Char} {text piece : List Char}
    (member : piece ∈ text.splitOn sep) (inside : c ∈ piece) : c ≠ sep ∧ c ∈ text := by
  induction text generalizing piece with
  | nil =>
    rw [List.splitOn_nil, List.mem_singleton] at member
    subst member
    cases inside
  | cons d rest ih =>
    have later {other : List Char} (known : other ∈ rest.splitOn sep) (held : c ∈ other) :
        c ≠ sep ∧ c ∈ d :: rest := (ih known held).imp_right (List.mem_cons_of_mem d)
    rw [List.splitOn_cons_eq_if_modifyHead] at member
    split at member
    · rcases List.mem_cons.mp member with rfl | known
      · cases inside
      · exact later known inside
    · rename_i other
      obtain ⟨first, more, pieces⟩ := List.exists_cons_of_ne_nil (List.splitOn_ne_nil sep rest)
      rw [pieces] at member later
      rcases List.mem_cons.mp member with rfl | known
      · rcases List.mem_cons.mp inside with rfl | held
        · exact ⟨fun same => other (beq_iff_eq.mpr same), List.mem_cons_self ..⟩
        · exact later (List.mem_cons_self ..) held
      · exact later (List.mem_cons_of_mem first known) inside

theorem lines_of_noReturn {text : List Char} (noReturn : '\r' ∉ text) :
    ∃ ending, (ending = [] ∨ ending = [[]]) ∧ lines text ++ ending = text.splitOn '\n' := by
  induction text with
  | nil => exact ⟨[[]], Or.inr rfl, rfl⟩
  | cons c rest ih =>
    rw [List.mem_cons, not_or] at noReturn
    obtain ⟨ending, empty, divided⟩ := ih noReturn.2
    rw [List.splitOn_cons_eq_if_modifyHead, ← divided]
    by_cases feed : c = '\n'
    · subst feed
      exact ⟨ending, empty, rfl⟩
    · rw [lines_cons feed fun both => noReturn.1 both.1.symm, if_neg (by simpa using feed)]
      cases known : lines rest with
      | cons line more => exact ⟨ending, empty, rfl⟩
      | nil =>
        -- The line that begins here is the empty one that was not counted.
        rcases empty with rfl | rfl
        · rw [known] at divided
          exact absurd divided.symm (List.splitOn_ne_nil _ _)
        · exact ⟨[], Or.inl rfl, rfl⟩

/-- Lines put together to a text. Each but the last has a line feed behind it, and in front of that
    a carriage return where one is asked for. -/
def joinLines : List (List Char × Bool) → List Char
  | [] => []
  | [(line, _)] => line
  | (line, returned) :: next :: rest =>
    line ++ (if returned then ['\r', '\n'] else ['\n']) ++ joinLines (next :: rest)

/-- What division makes of a line that was put into a text: a carriage return at the end can go with
    the line feed. -/
def DividedAs (part : List Char × Bool) (line : List Char) : Prop :=
  part.1 = line ∨ part.1 = line ++ ['\r']

theorem lines_joinLines_cons {line : List Char} (noFeed : '\n' ∉ line) (returned : Bool)
    (next : List Char × Bool) (rest : List (List Char × Bool)) :
    ∃ found, DividedAs (line, returned) found ∧
      lines (joinLines ((line, returned) :: next :: rest)) =
        found :: lines (joinLines (next :: rest)) := by
  rw [joinLines, List.append_assoc]
  cases returned with
  | true => exact ⟨line, Or.inl rfl, lines_append_returnFeed noFeed _⟩
  | false =>
    by_cases ending : line.getLast? = some '\r'
    · -- The line brings its own carriage return, and loses it.
      obtain ⟨found, rfl⟩ := List.getLast?_eq_some_iff.mp ending
      refine ⟨found, Or.inr rfl, ?_⟩
      rw [List.append_assoc]
      exact lines_append_returnFeed (fun inside => noFeed (List.mem_append_left _ inside)) _
    · exact ⟨line, Or.inl rfl, lines_append_feed noFeed ending _⟩

theorem lines_joinLines {parts : List (List Char × Bool)} (noFeed : ∀ part ∈ parts, '\n' ∉ part.1) :
    ∃ ending, (ending = [] ∨ ending = [[]]) ∧
      List.Forall₂ DividedAs parts (lines (joinLines parts) ++ ending) := by
  induction parts with
  | nil => exact ⟨[], Or.inl rfl, .nil⟩
  | cons first parts ih =>
    obtain ⟨line, returned⟩ := first
    have single : '\n' ∉ line := noFeed _ (List.mem_cons_self ..)
    cases parts with
    | nil =>
      cases line with
      | nil => exact ⟨[[]], Or.inr rfl, .cons (Or.inl rfl) .nil⟩
      | cons c tail =>
        refine ⟨[], Or.inl rfl, ?_⟩
        rw [joinLines, lines_of_noFeed (List.cons_ne_nil c tail) single]
        exact .cons (Or.inl rfl) .nil
    | cons next rest =>
      obtain ⟨ending, empty, divided⟩ := ih fun part member =>
        noFeed part (List.mem_cons_of_mem _ member)
      obtain ⟨found, same, begins⟩ := lines_joinLines_cons single returned next rest
      refine ⟨ending, empty, ?_⟩
      rw [begins, List.cons_append]
      exact .cons same divided

end WordMachine
