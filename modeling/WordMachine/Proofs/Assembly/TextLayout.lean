import WordMachine.Proofs.Assembly.Append

/-!
Texts that differ in their layout. Lines with nothing to read on them may be put in anywhere, blanks
and comments may be put behind any line, and any line may end with a carriage return and a line
feed: the words are the same, and an error is the same error of the same line, wherever that line
now is.
-/

namespace WordMachine

/-- A line of a new layout: one of the old lines with something behind it, or a line put in. -/
structure TextRow where
  source : Option (List Char)
  filler : List Char
  blank : IsBlankLine filler
  single : '\n' ∉ filler
  /-- Whether a carriage return stands in front of the line feed. -/
  returned : Bool

namespace TextRow

def line (row : TextRow) : List Char := row.source.getD [] ++ row.filler

def ReadAs (row : TextRow) (line : List Char) : Prop :=
  ∃ filler, IsBlankLine filler ∧ line = row.source.getD [] ++ filler

/-- A carriage return that division takes off a row was in a comment behind the old line. -/
theorem readAs_of_divided {row : TextRow} (noReturn : '\r' ∉ row.source.getD []) {line : List Char}
    (divided : DividedAs (row.line, row.returned) line) : row.ReadAs line := by
  obtain ⟨source, filler, blank, _, _⟩ := row
  rcases divided with whole | cut
  · exact ⟨filler, blank, whole.symm⟩
  · change source.getD [] ++ filler = line ++ ['\r'] at cut
    rcases List.eq_nil_or_concat' filler with rfl | ⟨front, last, rfl⟩
    · rw [List.append_nil] at cut
      have ending : '\r' ∈ source.getD [] := by
        rw [cut]
        exact List.mem_append_right line (List.mem_singleton_self _)
      exact absurd ending noReturn
    · rw [← List.append_assoc] at cut
      exact ⟨front, blank.of_append, (List.append_inj_left' cut rfl).symm⟩

end TextRow

/-- The rows hold the lines of the old text in their order, and the new text is made of the rows. -/
structure Relaid (rows : List TextRow) (text other : String) : Prop where
  sources : rows.filterMap TextRow.source = text.toList.splitOn '\n'
  written : other.toList = joinLines (rows.map fun row => (row.line, row.returned))

def AssemblyCause.Alike : AssemblyCause → AssemblyCause → Prop
  | .malformed _, .malformed _ => True
  | cause, other => other = cause

theorem AssemblyCause.alike_refl (cause : AssemblyCause) : cause.Alike cause := by
  cases cause <;> trivial

namespace Assembly

theorem assembleLine_append_blank {filler : List Char} (blank : IsBlankLine filler)
    (line : List Char) :
    (∃ word?, assembleLine line = .ok word? ∧ assembleLine (line ++ filler) = .ok word?) ∨
    ∃ cause other, assembleLine line = .error cause ∧
      assembleLine (line ++ filler) = .error other ∧ cause.Alike other := by
  have read := SourceLine.read?_append_blank blank line
  cases known : SourceLine.read? line with
  | none =>
    refine Or.inr ⟨.malformed (String.ofList (trim line)),
      .malformed (String.ofList (trim (line ++ filler))), ?_, ?_, trivial⟩
    · simp only [assembleLine, known]
    · simp only [assembleLine, read, known]
  | some source =>
    have same : assembleLine (line ++ filler) = assembleLine line := by
      rw [assembleLine, assembleLine, read, known]
      cases source <;> rfl
    rw [same]
    cases assembleLine line with
    | error cause => exact Or.inr ⟨cause, cause, rfl, rfl, cause.alike_refl⟩
    | ok word? => exact Or.inl ⟨word?, rfl, rfl⟩

/-- Errors of one line, which is one of the old lines counted from `old` on, and among the rows
    counted from `new` on is the one that holds it. -/
structure Moved (old new : Nat) (rows : List TextRow) (first second : AssemblyError) : Prop where
  place : ∃ above row below, rows = above ++ row :: below ∧ row.source.isSome ∧
    first.line = old + (above.filterMap TextRow.source).length ∧ second.line = new + above.length
  alike : first.cause.Alike second.cause

namespace Moved
variable {old new : Nat} {row : TextRow} {rows : List TextRow} {first second : AssemblyError}

theorem inserted (moved : Moved old (new + 1) rows first second) (added : row.source = none) :
    Moved old new (row :: rows) first second := by
  obtain ⟨⟨above, other, below, place, kept, before, after⟩, alike⟩ := moved
  refine ⟨⟨row :: above, other, below, congrArg (row :: ·) place, kept, ?_, ?_⟩, alike⟩
  · rw [List.filterMap_cons_none added, before]
  · rw [List.length_cons, after, Nat.add_assoc, Nat.add_comm 1]

theorem kept (moved : Moved (old + 1) (new + 1) rows first second) (held : row.source.isSome) :
    Moved old new (row :: rows) first second := by
  obtain ⟨⟨above, other, below, place, kept, before, after⟩, alike⟩ := moved
  obtain ⟨line, held⟩ := Option.isSome_iff_exists.mp held
  refine ⟨⟨row :: above, other, below, congrArg (row :: ·) place, kept, ?_, ?_⟩, alike⟩
  · rw [List.filterMap_cons_some held, List.length_cons, before, Nat.add_assoc, Nat.add_comm 1]
  · rw [List.length_cons, after, Nat.add_assoc, Nat.add_comm 1]

end Moved

/-- The old lines, counted from `old` on, and the rows, counted from `new` on, have the same words
    or an error of the same line. -/
def Agree (old new : Nat) (rows : List TextRow) :
    Except AssemblyError (List Word) → Except AssemblyError (List Word) → Prop
  | .ok words, .ok others => others = words
  | .error first, .error second => Moved old new rows first second
  | _, _ => False

namespace Agree
variable {old new : Nat} {row : TextRow} {rows : List TextRow}
  {before after : Except AssemblyError (List Word)}

theorem inserted (agree : Agree old (new + 1) rows before after) (added : row.source = none) :
    Agree old new (row :: rows) before after := by
  cases before <;> cases after
  case error.error => exact Moved.inserted agree added
  all_goals exact agree

theorem kept (agree : Agree (old + 1) (new + 1) rows before after) (held : row.source.isSome)
    (words : List Word) :
    Agree old new (row :: rows) (before.map (words ++ ·)) (after.map (words ++ ·)) := by
  cases before <;> cases after
  case error.error => exact Moved.kept agree held
  case ok.ok => exact congrArg (words ++ ·) agree
  all_goals exact agree

theorem ok_iff (agree : Agree old new rows before after) (words : List Word) :
    after = .ok words ↔ before = .ok words := by
  cases before <;> cases after
  case ok.ok =>
    cases agree
    exact Iff.rfl
  case error.error => exact ⟨nofun, nofun⟩
  all_goals cases agree

theorem moved (agree : Agree old new rows before after) {e : AssemblyError}
    (refused : before = .error e) : ∃ f, after = .error f ∧ Moved old new rows e f := by
  subst refused
  cases after with
  | ok words => cases agree
  | error f => exact ⟨f, rfl, agree⟩

end Agree

theorem agree_assembleLines {rows : List TextRow} {written : List (List Char)}
    (reads : List.Forall₂ TextRow.ReadAs rows written) (old new : Nat) :
    Agree old new rows (assembleLines old (rows.filterMap TextRow.source))
      (assembleLines new written) := by
  induction reads generalizing old new with
  | nil => rfl
  | @cons row line rows written here _ ih =>
    obtain ⟨filler, blank, rfl⟩ := here
    cases held : row.source with
    | none =>
      rw [List.filterMap_cons_none held, Option.getD_none, List.nil_append,
        assembleLines_of_blank blank]
      exact (ih old (new + 1)).inserted held
    | some source =>
      rw [List.filterMap_cons_some held, Option.getD_some]
      have kept : row.source.isSome := Option.isSome_of_eq_some held
      rcases assembleLine_append_blank blank source with
        ⟨word?, before, after⟩ | ⟨cause, other, before, after, alike⟩
      · rw [assembleLines_of_ok before, assembleLines_of_ok after]
        exact (ih (old + 1) (new + 1)).kept kept word?.toList
      · rw [assembleLines_of_error before, assembleLines_of_error after]
        exact ⟨⟨[], row, rows, rfl, kept, rfl, rfl⟩, alike⟩

end Assembly

namespace Relaid
open Assembly
variable {rows : List TextRow} {text other : String}

theorem source_plain (relaid : Relaid rows text other) (noReturn : '\r' ∉ text.toList)
    {row : TextRow} (member : row ∈ rows) :
    '\n' ∉ row.source.getD [] ∧ '\r' ∉ row.source.getD [] := by
  cases held : row.source with
  | none => exact ⟨List.not_mem_nil, List.not_mem_nil⟩
  | some line =>
    have known : line ∈ text.toList.splitOn '\n' := by
      rw [← relaid.sources]
      exact List.mem_filterMap.mpr ⟨row, member, held⟩
    exact ⟨fun inside => (mem_of_mem_splitOn known inside).1 rfl,
      fun inside => noReturn (mem_of_mem_splitOn known inside).2⟩

theorem assemble_text (relaid : Relaid rows text other) (noReturn : '\r' ∉ text.toList) :
    assemble text = assembleLines 1 (rows.filterMap TextRow.source) := by
  obtain ⟨ending, empty, divided⟩ := lines_of_noReturn noReturn
  rw [relaid.sources, ← divided, assembleLines_append_empty empty, assemble]

theorem assemble_other (relaid : Relaid rows text other) (noReturn : '\r' ∉ text.toList) :
    ∃ written, List.Forall₂ TextRow.ReadAs rows written ∧
      assemble other = assembleLines 1 written := by
  have noFeed : ∀ part ∈ rows.map (fun row => (row.line, row.returned)), '\n' ∉ part.1 := by
    intro part member inside
    obtain ⟨row, known, rfl⟩ := List.mem_map.mp member
    rcases List.mem_append.mp inside with old | new
    · exact (relaid.source_plain noReturn known).1 old
    · exact row.single new
  obtain ⟨ending, empty, divided⟩ := lines_joinLines noFeed
  rw [← relaid.written, List.forall₂_map_left_iff] at divided
  have reads : List.Forall₂ TextRow.ReadAs rows (lines other.toList ++ ending) := by
    refine ((List.forall₂_and_left rows _).mpr ⟨fun row member => ?_, divided⟩).imp
      fun row line ⟨noReturn, divided⟩ => TextRow.readAs_of_divided noReturn divided
    exact (relaid.source_plain noReturn member).2
  exact ⟨_, reads, by rw [assembleLines_append_empty empty, assemble]⟩

theorem agree_assemble (relaid : Relaid rows text other) (noReturn : '\r' ∉ text.toList) :
    Agree 1 1 rows (assemble text) (assemble other) := by
  obtain ⟨written, reads, assembled⟩ := relaid.assemble_other noReturn
  rw [relaid.assemble_text noReturn, assembled]
  exact agree_assembleLines reads 1 1

end Relaid

namespace Assembly

/-- Layout makes no difference to what is assembled. An error says the same, but for the number of
    its line and the text of a line that could not be read. -/
theorem layout_does_not_matter {rows : List TextRow} {text other : String}
    (noReturn : '\r' ∉ text.toList) (relaid : Relaid rows text other) :
    (∀ words, assemble other = .ok words ↔ assemble text = .ok words) ∧
    ∀ e, assemble text = .error e →
      ∃ above row below cause, rows = above ++ row :: below ∧ row.source.isSome ∧
        e.line = (above.filterMap TextRow.source).length + 1 ∧
        assemble other = .error ⟨above.length + 1, cause⟩ ∧ e.cause.Alike cause := by
  have agree := relaid.agree_assemble noReturn
  refine ⟨agree.ok_iff, fun e refused => ?_⟩
  obtain ⟨f, after, ⟨above, row, below, place, kept, oldLine, newLine⟩, alike⟩ :=
    agree.moved refused
  refine ⟨above, row, below, f.cause, place, kept, ?_, ?_, alike⟩
  · rw [oldLine, Nat.add_comm]
  · rw [after, Nat.add_comm, ← newLine]

def commented : List TextRow :=
  [⟨none, "# sum".toList, by decide, by decide, true⟩,
   ⟨"add x1, x2, x3".toList, "\t # note".toList, by decide, by decide, true⟩,
   ⟨none, " \t".toList, by decide, by decide, false⟩,
   ⟨"hlt".toList, "#end".toList, by decide, by decide, false⟩]

/-- An operand is missing on the last line. A comment that is put in has a carriage return in it. -/
def unfinished : List TextRow :=
  [⟨"hlt".toList, [], by decide, by decide, false⟩,
   ⟨none, "#\r-".toList, by decide, by decide, true⟩,
   ⟨none, [], by decide, by decide, false⟩,
   ⟨"add x1,".toList, " # x2".toList, by decide, by decide, true⟩]

theorem layout_does_not_matter_comments :
    assemble "add x1, x2, x3\nhlt" = .ok [0x06110C00, 0] ∧
    assemble "# sum\r\nadd x1, x2, x3\t # note\r\n \t\nhlt#end" = .ok [0x06110C00, 0] ∧
    assemble "hlt\nadd x1," = .error ⟨2, .malformed "add x1,"⟩ ∧
    ∃ above row below cause, unfinished = above ++ row :: below ∧ row.source.isSome ∧
      2 = (above.filterMap TextRow.source).length + 1 ∧
      assemble "hlt\n#\r-\r\n\nadd x1, # x2" = .error ⟨above.length + 1, cause⟩ ∧
      (AssemblyCause.malformed "add x1,").Alike cause := by
  have sum : Relaid commented "add x1, x2, x3\nhlt"
      "# sum\r\nadd x1, x2, x3\t # note\r\n \t\nhlt#end" := ⟨rfl, rfl⟩
  have missing : Relaid unfinished "hlt\nadd x1," "hlt\n#\r-\r\n\nadd x1, # x2" := ⟨rfl, rfl⟩
  exact ⟨rfl, ((layout_does_not_matter (by decide) sum).1 _).mpr rfl, rfl,
    (layout_does_not_matter (by decide) missing).2 _ rfl⟩

end Assembly

end WordMachine
