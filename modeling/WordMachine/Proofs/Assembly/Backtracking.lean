import WordMachine.Proofs.Assembly.SourceLine

/-!
A reader of lines that looks for one thing after another. It tries a comma before it tries blanks,
takes as many operands as there are, and gives back a separator that no operand follows. What is
left of the line then has to be blanks and a comment. It accepts the lines that `SourceLine.read?`
accepts and reads the same off them.
-/

namespace WordMachine

abbrev LineReader (α : Type) := List Char → Option (List Char × α)

namespace LineReader
variable {α β γ : Type}

def both (first : LineReader α) (second : LineReader β) : LineReader (α × β) := fun input =>
  match first input with
  | none => none
  | some (middle, a) =>
    match second middle with
    | none => none
    | some (rest, b) => some (rest, (a, b))

def map (f : α → β) (reader : LineReader α) : LineReader β := fun input =>
  (reader input).map fun (rest, value) => (rest, f value)

def either (first second : LineReader α) : LineReader α := fun input =>
  match first input with
  | some result => some result
  | none => second input

def optional (reader : LineReader α) : LineReader (Option α) := fun input =>
  match reader input with
  | some (rest, value) => some (rest, some value)
  | none => some (input, none)

/-- As often as it succeeds. A reader that succeeds without taking anything would do so for ever,
    and is refused. -/
def many (reader : LineReader α) (input : List Char) : Option (List Char × List α) :=
  match reader input with
  | none => some (input, [])
  | some (rest, value) =>
    if rest.length < input.length then
      match many reader rest with
      | none => none
      | some (last, values) => some (last, value :: values)
    else none
termination_by input.length

def whole (reader : LineReader α) : LineReader α := fun input =>
  match reader input with
  | some ([], value) => some ([], value)
  | _ => none

def exactly (c : Char) : LineReader Unit
  | [] => none
  | d :: rest => if d = c then some (rest, ()) else none

def everything : LineReader Unit := fun _ => some ([], ())

def blanks : LineReader Unit := fun input => some (input.dropWhile isBlank, ())

def someBlanks : LineReader Unit
  | [] => none
  | c :: rest => if isBlank c then blanks rest else none

def token : LineReader String := fun input =>
  if input.takeWhile isTokenChar = [] then none
  else some (input.dropWhile isTokenChar, String.ofList (input.takeWhile isTokenChar))

def separator : LineReader Unit :=
  either (map (fun _ => ()) (both blanks (both (exactly ',') blanks))) someBlanks

def operand : LineReader String := map Prod.snd (both separator token)

def comment : LineReader Unit := map Prod.snd (both (exactly '#') everything)

def ending : LineReader Unit := map (fun _ => ()) (both blanks (optional comment))

def line : LineReader (Option (String × List String)) :=
  whole (map (fun parts => parts.2.1)
    (both blanks (both (optional (both token (many operand))) ending)))

def Ended (input : List Char) : Prop := ∀ c ∈ input.head?, isTokenChar c = false

theorem ended_dropWhile (input : List Char) : Ended (input.dropWhile isTokenChar) := by
  intro c first
  have found := List.head?_dropWhile_not isTokenChar input
  rw [Option.mem_def.mp first] at found
  simpa using found

theorem scan_dropWhile (input : List Char) :
    Lexeme.scan [] (input.dropWhile isBlank) = Lexeme.scan [] input := by
  induction input with
  | nil => rfl
  | cons c rest ih =>
    by_cases blank : isBlank c = true
    · have others : c ≠ '#' ∧ c ≠ ',' := by
        constructor <;> rintro rfl <;> cases blank
      rw [List.dropWhile_cons_of_pos blank, ih, Lexeme.scan, if_neg others.1, if_neg others.2,
        if_pos blank]
      rfl
    · rw [List.dropWhile_cons_of_neg blank]

theorem notBlank_of_dropWhile {input rest : List Char} {c : Char}
    (known : input.dropWhile isBlank = c :: rest) : isBlank c = false := by
  have found := List.head?_dropWhile_not isBlank input
  rw [known] at found
  simpa using found

theorem scan_of_ended {input : List Char} (ended : Ended input) (run : List Char) :
    Lexeme.scan run input = Lexeme.close run (Lexeme.scan [] input) := by
  cases input with
  | nil => rfl
  | cons c rest =>
    have other := ended c rfl
    by_cases comment : c = '#'
    · subst comment
      rfl
    · by_cases comma : c = ','
      · subst comma
        rfl
      · have blank : isBlank c = true := by
          simpa [isTokenChar, comment, comma] using other
        simp [Lexeme.scan, comment, comma, blank, Lexeme.close]

theorem token_eq_none {input : List Char} (missing : token input = none) : Ended input := by
  intro c first
  cases input with
  | nil => cases first
  | cons d rest =>
    cases first
    cases known : isTokenChar c with
    | false => rfl
    | true => simp [token, known] at missing

theorem scan_of_token {input rest : List Char} {text : String}
    (found : token input = some (rest, text)) :
    Lexeme.scan [] input = .token text :: Lexeme.scan [] rest ∧ Ended rest ∧
      rest.length < input.length := by
  rw [token] at found
  split at found
  · cases found
  · rename_i nonempty
    cases found
    have whole := List.takeWhile_append_dropWhile (p := isTokenChar) (l := input)
    refine ⟨?_, ended_dropWhile input, ?_⟩
    · have valid : ∀ c ∈ input.takeWhile isTokenChar, isTokenChar c = true :=
        List.all_eq_true.mp List.all_takeWhile
      have scanned := Lexeme.scan_append valid [] (input.dropWhile isTokenChar)
      rw [whole, List.append_nil, scan_of_ended (ended_dropWhile input)] at scanned
      rw [scanned, Lexeme.close, if_neg (by simpa using nonempty), List.reverse_reverse]
    · have lengths := congrArg List.length whole
      rw [List.length_append] at lengths
      have positive := List.length_pos_iff.mpr nonempty
      omega

theorem separator_eq (input : List Char) :
    separator input =
      match input.dropWhile isBlank with
      | ',' :: rest => some (rest.dropWhile isBlank, ())
      | _ => someBlanks input := by
  cases known : input.dropWhile isBlank with
  | nil => simp [separator, either, map, both, blanks, exactly, known]
  | cons c rest =>
    by_cases comma : c = ','
    · subst comma
      simp [separator, either, map, both, blanks, exactly, known]
    · simp [separator, either, map, both, blanks, exactly, known, comma]

theorem scan_of_separator {input rest : List Char} (found : separator input = some (rest, ())) :
    rest.length ≤ input.length ∧
      (Lexeme.scan [] input = Lexeme.scan [] rest ∨
        Lexeme.scan [] input = .comma :: Lexeme.scan [] rest) := by
  have shorter (text : List Char) : (text.dropWhile isBlank).length ≤ text.length :=
    (List.dropWhile_suffix isBlank).length_le
  rw [separator_eq] at found
  split at found
  · rename_i tail known
    cases found
    have lengths := shorter input
    rw [known, List.length_cons] at lengths
    refine ⟨by have := shorter tail; omega, Or.inr ?_⟩
    rw [← scan_dropWhile, known, scan_dropWhile]
    rfl
  · cases input with
    | nil => cases found
    | cons c tail =>
      rw [someBlanks] at found
      split at found
      · rename_i blank
        cases found
        refine ⟨by have := shorter tail; rw [List.length_cons]; omega, Or.inl ?_⟩
        rw [← scan_dropWhile (c :: tail), List.dropWhile_cons_of_pos blank]
      · cases found

theorem scan_of_operand {input rest : List Char} {text : String}
    (found : operand input = some (rest, text)) :
    Lexeme.operands? (Lexeme.scan [] input) =
        (Lexeme.operands? (Lexeme.scan [] rest)).map (text :: ·) ∧
      Ended rest ∧ rest.length < input.length := by
  rw [operand, map, both] at found
  cases separated : separator input with
  | none => simp [separated] at found
  | some result =>
    obtain ⟨middle, _⟩ := result
    cases taken : token middle with
    | none => simp [separated, taken] at found
    | some result =>
      simp only [separated, taken, Option.map_some, Option.some.injEq, Prod.mk.injEq] at found
      obtain ⟨rfl, rfl⟩ := found
      obtain ⟨scanned, ended, shorter⟩ := scan_of_token taken
      obtain ⟨le, same | comma⟩ := scan_of_separator separated
      · refine ⟨?_, ended, by omega⟩
        rw [same, scanned, Lexeme.operands?]
      · refine ⟨?_, ended, by omega⟩
        rw [comma, scanned, Lexeme.operands?]

theorem scan_of_no_token {input : List Char} (ended : Ended (input.dropWhile isBlank)) :
    Lexeme.scan [] input = [] ∨ ∃ rest, input.dropWhile isBlank = ',' :: rest := by
  rw [← scan_dropWhile]
  cases known : input.dropWhile isBlank with
  | nil => exact Or.inl rfl
  | cons c rest =>
    have notBlank := notBlank_of_dropWhile known
    have other : isTokenChar c = false := ended c (by rw [known]; rfl)
    simp only [isTokenChar, notBlank, Bool.false_or, Bool.not_eq_false', Bool.or_eq_true,
      decide_eq_true_eq] at other
    rcases other with rfl | rfl
    · exact Or.inr ⟨rest, rfl⟩
    · exact Or.inl rfl

theorem scan_of_comma {input rest : List Char} (known : input.dropWhile isBlank = ',' :: rest) :
    Lexeme.scan [] input = .comma :: Lexeme.scan [] rest := by
  rw [← scan_dropWhile, known]
  rfl

theorem operands?_of_comma {rest : List Char} (missing : token (rest.dropWhile isBlank) = none) :
    Lexeme.operands? (.comma :: Lexeme.scan [] rest) = none := by
  rcases scan_of_no_token (token_eq_none missing) with nothing | ⟨more, comma⟩
  · rw [nothing]
    rfl
  · rw [scan_of_comma comma]
    rfl

theorem scan_of_no_operand {input : List Char} (ended : Ended input)
    (noComma : ¬ ∃ rest, input.dropWhile isBlank = ',' :: rest) (missing : operand input = none) :
    Lexeme.scan [] input = [] := by
  have stuck : Ended (input.dropWhile isBlank) := by
    have separated : separator input = someBlanks input := by
      rw [separator_eq]
      split
      · exact absurd ⟨_, ‹_›⟩ noComma
      · rfl
    cases input with
    | nil => exact ended
    | cons c rest =>
      by_cases blank : isBlank c = true
      · rw [List.dropWhile_cons_of_pos blank]
        apply token_eq_none
        cases taken : token (rest.dropWhile isBlank) with
        | none => rfl
        | some result =>
          simp [operand, map, both, separated, someBlanks, blank, blanks, taken] at missing
      · rwa [List.dropWhile_cons_of_neg blank]
  exact (scan_of_no_token stuck).resolve_right noComma

theorem operands?_of_no_operand {input : List Char} (ended : Ended input)
    (missing : operand input = none) :
    Lexeme.operands? (Lexeme.scan [] input) = if IsBlankLine input then some [] else none := by
  by_cases comma : ∃ rest, input.dropWhile isBlank = ',' :: rest
  · obtain ⟨rest, known⟩ := comma
    have scanned := scan_of_comma known
    have spoken : ¬ IsBlankLine input := by
      rw [← Lexeme.scan_eq_nil_iff, scanned]
      exact List.cons_ne_nil _ _
    have separated : separator input = some (rest.dropWhile isBlank, ()) := by
      simp only [separator_eq, known]
    have noToken : token (rest.dropWhile isBlank) = none := by
      cases taken : token (rest.dropWhile isBlank) with
      | none => rfl
      | some result => simp [operand, map, both, separated, taken] at missing
    rw [scanned, operands?_of_comma noToken, if_neg spoken]
  · have nothing := scan_of_no_operand ended comma missing
    rw [nothing, if_pos (Lexeme.scan_eq_nil_iff.mp nothing)]
    rfl

/-- The operands are taken as far as they go. They are those of the line if the rest of it is
    blank, and otherwise the line has a comma too many. -/
theorem many_operand {input : List Char} (ended : Ended input) :
    ∃ rest values, many operand input = some (rest, values) ∧
      Lexeme.operands? (Lexeme.scan [] input) = if IsBlankLine rest then some values else none := by
  induction length : input.length using Nat.strongRecOn generalizing input with
  | ind n ih =>
    rw [many]
    cases found : operand input with
    | none => exact ⟨input, [], rfl, operands?_of_no_operand ended found⟩
    | some result =>
      obtain ⟨middle, text⟩ := result
      obtain ⟨scanned, next, shorter⟩ := scan_of_operand found
      obtain ⟨rest, values, taken, read⟩ := ih middle.length (by omega) next rfl
      refine ⟨rest, text :: values, ?_, ?_⟩
      · simp only [if_pos shorter, taken]
      · rw [scanned, read]
        split <;> rfl

theorem isBlankLine_dropWhile (input : List Char) :
    IsBlankLine (input.dropWhile isBlank) ↔ IsBlankLine input := by
  rw [← Lexeme.scan_eq_nil_iff, ← Lexeme.scan_eq_nil_iff, scan_dropWhile]

theorem ending_eq (input : List Char) :
    ∃ rest, ending input = some (rest, ()) ∧ (rest = [] ↔ IsBlankLine input) := by
  rw [← isBlankLine_dropWhile]
  cases known : input.dropWhile isBlank with
  | nil =>
    refine ⟨[], ?_, iff_of_true rfl trivial⟩
    simp [ending, map, both, blanks, optional, comment, exactly, known]
  | cons c rest =>
    have notBlank := notBlank_of_dropWhile known
    by_cases started : c = '#'
    · refine ⟨[], ?_, iff_of_true rfl (Or.inl started)⟩
      simp [ending, map, both, blanks, optional, comment, exactly, everything, known, started]
    · refine ⟨c :: rest, ?_, ?_⟩
      · simp [ending, map, both, blanks, optional, comment, exactly, known, started]
      · simp [IsBlankLine, started, notBlank]

end LineReader

def SourceLine.parts : SourceLine → Option (String × List String)
  | .blank => none
  | .operation name operands => some (name, operands)

namespace LineReader

theorem line_of_parts {text middle rest : List Char} {parts : Option (String × List String)}
    (taken : optional (both token (many operand)) (text.dropWhile isBlank) = some (middle, parts))
    (closed : ending middle = some (rest, ())) :
    line text = if rest = [] then some ([], parts) else none := by
  cases rest <;> simp [line, whole, map, both, blanks, taken, closed]

/-- Both ways to read a line come to the same, and nothing is left of a line that is read. -/
theorem line_eq (text : List Char) :
    line text = (SourceLine.read? text).map fun source => ([], source.parts) := by
  rw [SourceLine.read?]
  cases taken : token (text.dropWhile isBlank) with
  | none =>
    obtain ⟨rest, closed, blank⟩ := ending_eq (text.dropWhile isBlank)
    have nothing : optional (both token (many operand)) (text.dropWhile isBlank) =
        some (text.dropWhile isBlank, none) := by
      simp [optional, both, taken]
    rw [isBlankLine_dropWhile, ← Lexeme.scan_eq_nil_iff] at blank
    rw [line_of_parts nothing closed]
    rcases scan_of_no_token (token_eq_none taken) with empty | ⟨more, comma⟩
    · rw [empty, if_pos (blank.mpr empty)]
      rfl
    · rw [scan_of_comma comma] at blank ⊢
      rw [if_neg fun none => List.cons_ne_nil _ _ (blank.mp none)]
      rfl
  | some result =>
    obtain ⟨middle, name⟩ := result
    obtain ⟨scanned, ended, _⟩ := scan_of_token taken
    rw [scan_dropWhile] at scanned
    obtain ⟨left, values, operands, read⟩ := many_operand ended
    obtain ⟨rest, closed, blank⟩ := ending_eq left
    have found : optional (both token (many operand)) (text.dropWhile isBlank) =
        some (left, some (name, values)) := by
      simp [optional, both, taken, operands]
    rw [line_of_parts found closed, scanned, SourceLine.ofLexemes?, read]
    by_cases none : IsBlankLine left
    · rw [if_pos none, if_pos (blank.mpr none)]
      rfl
    · rw [if_neg none, if_neg (mt blank.mp none)]
      rfl

end LineReader

end WordMachine
