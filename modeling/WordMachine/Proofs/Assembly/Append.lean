import WordMachine.Proofs.Assembly.Line
import WordMachine.Proofs.Text.Lines

/-!
Assembly of a text that is put together from others. Every line is assembled by itself, and all that
it takes over from the lines above it is their number.
-/

namespace WordMachine

namespace Assembly

theorem assembleLines_of_blank {line : List Char} (blank : IsBlankLine line) (number : Nat)
    (rest : List (List Char)) :
    assembleLines number (line :: rest) = assembleLines (number + 1) rest := by
  rw [assembleLines, assembleLine_of_blank blank]
  cases assembleLines (number + 1) rest <;> rfl

theorem assembleLines_of_ok {line : List Char} {word? : Option Word}
    (assembled : assembleLine line = .ok word?) (number : Nat) (rest : List (List Char)) :
    assembleLines number (line :: rest) =
      (assembleLines (number + 1) rest).map (word?.toList ++ ·) := by
  rw [assembleLines, assembled]
  cases assembleLines (number + 1) rest <;> rfl

theorem assembleLines_of_error {line : List Char} {cause : AssemblyCause}
    (refused : assembleLine line = .error cause) (number : Nat) (rest : List (List Char)) :
    assembleLines number (line :: rest) = .error ⟨number, cause⟩ := by
  rw [assembleLines, refused]

theorem assembleLines_append (number : Nat) (first rest : List (List Char)) :
    assembleLines number (first ++ rest) =
      match assembleLines number first with
      | .error error => .error error
      | .ok words => (assembleLines (number + first.length) rest).map (words ++ ·) := by
  induction first generalizing number with
  | nil =>
    rw [List.nil_append, List.length_nil, Nat.add_zero]
    cases assembleLines number rest <;> rfl
  | cons line first ih =>
    have place : number + (line :: first).length = number + 1 + first.length := by
      rw [List.length_cons, Nat.add_comm first.length, Nat.add_assoc]
    rw [List.cons_append, place]
    cases known : assembleLine line with
    | error cause => rw [assembleLines_of_error known, assembleLines_of_error known]
    | ok word? =>
      rw [assembleLines_of_ok known, assembleLines_of_ok known, ih]
      cases assembleLines (number + 1) first with
      | error error => rfl
      | ok words =>
        cases assembleLines (number + 1 + first.length) rest with
        | error error => rfl
        | ok more => simp [Except.map]

theorem assembleLines_add (number count : Nat) (texts : List (List Char)) :
    assembleLines (number + count) texts =
      (assembleLines number texts).mapError fun e => ⟨e.line + count, e.cause⟩ := by
  induction texts generalizing number with
  | nil => rfl
  | cons line texts ih =>
    cases known : assembleLine line with
    | error cause =>
      rw [assembleLines_of_error known, assembleLines_of_error known]
      rfl
    | ok word? =>
      rw [assembleLines_of_ok known, assembleLines_of_ok known, Nat.add_right_comm, ih]
      cases assembleLines (number + 1) texts <;> rfl

theorem assembleLines_append_empty {ending : List (List Char)} (empty : ending = [] ∨ ending = [[]])
    (number : Nat) (texts : List (List Char)) :
    assembleLines number (texts ++ ending) = assembleLines number texts := by
  rcases empty with rfl | rfl
  · rw [List.append_nil]
  · rw [assembleLines_append]
    cases assembleLines number texts with
    | error error => rfl
    | ok words => exact congrArg Except.ok (List.append_nil words)

theorem assemble_append_feed {first : String} (noReturn : first.toList.getLast? ≠ some '\r')
    (rest : String) :
    assemble (first ++ "\n" ++ rest) =
      match assemble first with
      | .error error => .error error
      | .ok words =>
        ((assemble rest).mapError fun e => ⟨e.line + (first.toList.count '\n' + 1), e.cause⟩).map
          (words ++ ·) := by
  obtain ⟨ending, empty, counted, joined⟩ := lines_append_text noReturn
  have whole : (first ++ "\n" ++ rest).toList = first.toList ++ '\n' :: rest.toList := by simp
  rw [assemble, whole, joined, assembleLines_append, assembleLines_append_empty empty, counted,
    assembleLines_add]
  rfl

theorem assemble_line {text : String} {line : List Char}
    (single : lines text.toList = [line] ∨ text = "" ∧ line = []) :
    assemble text =
      match assembleLine line with
      | .error cause => .error ⟨1, cause⟩
      | .ok word? => .ok word?.toList := by
  rcases single with single | ⟨rfl, rfl⟩
  · rw [assemble, single, assembleLines]
    cases assembleLine line with
    | error cause => rfl
    | ok word? => simp [assembleLines]
  · rfl

/-- A text behind another begins a number of lines further down and is assembled apart from it,
    unless the first one is refused. On each line there is nothing, a word or an error. -/
theorem assemble_line_by_line :
    (∀ first rest : String, first.toList.getLast? ≠ some '\r' →
      (∀ e, assemble first = .error e → assemble (first ++ "\n" ++ rest) = .error e) ∧
      (∀ words more, assemble first = .ok words → assemble rest = .ok more →
        assemble (first ++ "\n" ++ rest) = .ok (words ++ more)) ∧
      ∀ words e, assemble first = .ok words → assemble rest = .error e →
        assemble (first ++ "\n" ++ rest) =
          .error ⟨e.line + (first.toList.count '\n' + 1), e.cause⟩) ∧
    ∀ (text : String) (line : List Char), lines text.toList = [line] ∨ text = "" ∧ line = [] →
      (IsBlankLine line → assemble text = .ok []) ∧
      (∀ i, Denotes line i → ∃ word, i.encode = .ok word ∧ assemble text = .ok [word]) ∧
      (¬ IsBlankLine line → (∀ i, ¬ Denotes line i) →
        ∃ cause, assemble text = .error ⟨1, cause⟩) := by
  constructor
  · intro first rest noReturn
    rw [assemble_append_feed noReturn]
    refine ⟨?_, ?_, ?_⟩
    · intro e failed
      rw [failed]
    · intro words more assembled following
      rw [assembled, following]
      rfl
    · intro words e assembled failed
      rw [assembled, failed]
      rfl
  · intro text line single
    rw [assemble_line single]
    refine ⟨?_, ?_, ?_⟩
    · intro blank
      rw [assembleLine_of_blank blank]
      rfl
    · intro i denotes
      obtain ⟨word, encoded, assembled⟩ := assembleLine_of_denotes denotes
      refine ⟨word, encoded, ?_⟩
      rw [assembled]
      rfl
    · intro spoken meaningless
      obtain ⟨cause, refused, _⟩ := assembleLine_of_neither spoken meaningless
      refine ⟨cause, ?_⟩
      rw [refused]

theorem assemble_line_by_line_each_way :
    assemble ("add x1\nhlt" ++ "\n" ++ "nop") = .error ⟨1, .wrongOperandCount .add 3 1⟩ ∧
    assemble ("set x1, -1 # down" ++ "\n" ++ "\r\nhlt") = .ok [0x0A107FF8, 0] ∧
    assemble ("hlt\n" ++ "\n" ++ "nop\nlui x32 1") = .error ⟨4, .registerOutOfRange "x32"⟩ ∧
    assemble "\t # note\r\n" = .ok [] ∧
    (∃ word, Instruction.halt.encode = .ok word ∧ assemble "HALT\r\n" = .ok [word]) ∧
    ∃ cause, assemble "hlt," = .error ⟨1, cause⟩ :=
  ⟨(assemble_line_by_line.1 "add x1\nhlt" "nop" (by decide)).1 _ rfl,
    (assemble_line_by_line.1 "set x1, -1 # down" "\r\nhlt" (by decide)).2.1 _ _ rfl rfl,
    (assemble_line_by_line.1 "hlt\n" "nop\nlui x32 1" (by decide)).2.2 _ _ rfl rfl,
    (assemble_line_by_line.2 "\t # note\r\n" "\t # note".toList (.inl rfl)).1 (by decide),
    (assemble_line_by_line.2 "HALT\r\n" "HALT".toList (.inl rfl)).2.1 .halt
      ⟨"HALT", [], rfl, rfl⟩,
    (assemble_line_by_line.2 "hlt," "hlt,".toList (.inl rfl)).2.2 (by decide)
      fun _ ⟨_, _, read, _⟩ => nomatch read⟩

end Assembly

end WordMachine
