import EntitySplit.Proofs.Diff.Row
import EntitySplit.Proofs.Diff.Script
import EntitySplit.Proofs.Text.Lines

namespace EntitySplit

namespace Diff

/-- A line of a preview: its sign, the number in front of the colon, and what
    stands behind. Lines without a mark have a space for their sign. -/
structure Entry where
  sign : Char
  number : Nat
  line : Text
  deriving DecidableEq, Repr

namespace Entry

/-- Reads a line of a preview: a sign, a space, the number after its padding, a
    colon with a space, and the rest as the line. Dots between hunks are no
    entry, since they have no such beginning. -/
def read? : Text → Option Entry
  | sign :: ' ' :: rest =>
    let padded := rest.dropWhile (· = ' ')
    (Text.after? ": ".toList (padded.dropWhile Char.isDigit)).map fun line =>
      ⟨sign, Nat.ofDigitChars 10 (padded.takeWhile Char.isDigit) 0, line⟩
  | _ => none

/-- Reads a preview without color, line by line, and leaves out what is no
    entry. -/
def readAll (preview : Text) : List Entry :=
  (preview.splitOn '\n').filterMap read?

end Entry

/-- The numbers of the entries with a sign. -/
def numbersOf (sign : Char) (entries : List Entry) : List Nat :=
  (entries.filter (·.sign = sign)).map Entry.number

/-- How a row is shown without color. A line that differs in white space only
    is shown by its new text and number. -/
def Row.printed (old new : Array Text) : Row → Text
  | .kept i _ => numbered ' ' old i
  | .respaced _ j => numbered ' ' new j
  | .deleted i => numbered '-' old i
  | .inserted j => numbered '+' new j

/-- What is read of a row once it has been printed: its sign, its number
    counted from one, and its line. -/
def Row.entry (old new : Array Text) : Row → Entry
  | .kept i _ => ⟨' ', i + 1, old.getD i []⟩
  | .respaced _ j => ⟨' ', j + 1, new.getD j []⟩
  | .deleted i => ⟨'-', i + 1, old.getD i []⟩
  | .inserted j => ⟨'+', j + 1, new.getD j []⟩

theorem sign_entry_eq_minus_iff {old new : Array Text} {row : Row} :
    (row.entry old new).sign = '-' ↔ ∃ i, row = .deleted i := by
  cases row <;> simp [Row.entry]

/-- A plus sign means an inserted line. A line that differs in white space only
    has no sign, although it is the new one. -/
theorem sign_entry_eq_plus_iff {old new : Array Text} {row : Row} :
    (row.entry old new).sign = '+' ↔ ∃ j, row = .inserted j := by
  cases row <;> simp [Row.entry]

/-- A numbered line is read back as it was printed, whatever the line holds and
    however many digits its number has. The padding is told from the sign by
    the one space between them. -/
theorem read?_numbered (sign : Char) (lines : Array Text) (index : Nat) :
    Entry.read? (numbered sign lines index) = some ⟨sign, index + 1, lines.getD index []⟩ := by
  have hdigit : ∀ c ∈ Nat.toDigits 10 (index + 1), c.isDigit = true :=
    fun c hc => Nat.isDigit_of_mem_toDigits (by decide) (by decide) hc
  have hpadding : (lineNumber index ++ (": ".toList ++ lines.getD index [])).dropWhile (· = ' ') =
      Nat.toDigits 10 (index + 1) ++ (": ".toList ++ lines.getD index []) := by
    rw [lineNumber, List.append_assoc]
    refine Text.dropWhile_run_append
      (fun c hc => by rw [List.eq_of_mem_replicate hc]; rfl) fun c hc => ?_
    rw [List.head?_append, List.head?_eq_some_head Nat.toDigits_ne_nil, Option.some_or] at hc
    obtain rfl := Option.some.inj hc
    refine decide_eq_false fun hblank => ?_
    have hfirst := hdigit _ (List.head_mem Nat.toDigits_ne_nil)
    rw [hblank] at hfirst
    exact absurd hfirst (by decide)
  have hcolon : ∀ c ∈ (": ".toList ++ lines.getD index []).head?, c.isDigit = false := by
    rintro c ⟨rfl⟩
    decide
  rw [numbered, List.append_assoc, List.cons_append, List.cons_append, Entry.read?, hpadding,
    Text.dropWhile_run_append hdigit hcolon, Text.takeWhile_run_append hdigit hcolon,
    Text.after?_append, Nat.ofDigitChars_toDigits (by decide) (by decide)]
  rfl

section

variable {old new lines : Array Text} {sign : Char}

/-- A numbered line is one line if what it shows is, so that splitting a
    preview at its line breaks gives back the lines that were joined. -/
theorem feed_not_mem_numbered (hsign : sign ≠ '\n') (hlines : ∀ line ∈ lines, '\n' ∉ line)
    (index : Nat) :
    '\n' ∉ numbered sign lines index := by
  have hnumber : '\n' ∉ lineNumber index := by
    intro hmem
    rcases List.mem_append.1 hmem with hmem | hmem
    · exact absurd (List.eq_of_mem_replicate hmem) (by decide)
    · exact absurd (Nat.isDigit_of_mem_toDigits (by decide) (by decide) hmem) (by decide)
  have hline : '\n' ∉ lines.getD index [] := by
    rw [Array.getD_eq_getD_getElem?]
    cases hget : lines[index]? with
    | none => exact List.not_mem_nil
    | some line => exact hlines line (Array.mem_of_getElem? hget)
  simp only [numbered, List.cons_append, List.mem_cons, List.mem_append]
  rintro (heq | heq | (hmem | hmem) | hmem)
  · exact hsign heq.symm
  · exact absurd heq (by decide)
  · exact hnumber hmem
  · exact absurd hmem (by decide)
  · exact hline hmem

theorem read?_printed (old new : Array Text) (row : Row) :
    Entry.read? (row.printed old new) = some (row.entry old new) := by
  cases row with
  | kept i j => exact read?_numbered ' ' old i
  | respaced i j => exact read?_numbered ' ' new j
  | deleted i => exact read?_numbered '-' old i
  | inserted j => exact read?_numbered '+' new j

/-- A printed row is one line if the lines of both texts are. -/
theorem feed_not_mem_printed (hold : ∀ line ∈ old, '\n' ∉ line) (hnew : ∀ line ∈ new, '\n' ∉ line)
    (row : Row) :
    '\n' ∉ row.printed old new := by
  cases row with
  | kept i j => exact feed_not_mem_numbered (by decide) hold i
  | respaced i j => exact feed_not_mem_numbered (by decide) hnew j
  | deleted i => exact feed_not_mem_numbered (by decide) hold i
  | inserted j => exact feed_not_mem_numbered (by decide) hnew j

theorem keptLines_eq (old new : Array Text) (i j count : Nat) :
    keptLines old i count = (keptRows i j count).map (Row.printed old new) := by
  induction count generalizing i j with
  | zero => rfl
  | succ count ih => exact congrArg (numbered ' ' old i :: ·) (ih (i + 1) (j + 1))

theorem deletedLines_eq (old new : Array Text) (i count : Nat) :
    deletedLines false old i count = (deletedRows i count).map (Row.printed old new) := by
  rw [deletedRows, List.map_map]
  rfl

theorem insertedLines_eq (old new : Array Text) (j count : Nat) :
    insertedLines false new j count = (insertedRows j count).map (Row.printed old new) := by
  rw [insertedRows, List.map_map]
  rfl

/-- The lines that show a change are its rows printed, for all four kinds of
    change and both ways to show a replacement. -/
theorem changeLines_eq (old new : Array Text) (change : Change) :
    changeLines false old new change = (change.rows old new).map (Row.printed old new) := by
  cases change with
  | equal i j count => exact keptLines_eq old new i j count
  | delete i count => exact deletedLines_eq old new i count
  | insert j count => exact insertedLines_eq old new j count
  | replace i oldCount j newCount =>
    rw [changeLines, Change.rows]
    split
    · rfl
    · rw [List.map_append, deletedLines_eq old new, insertedLines_eq old new]

theorem flatMap_changeLines (old new : Array Text) (hunk : List Change) :
    hunk.flatMap (changeLines false old new) =
      (hunk.flatMap (Change.rows old new)).map (Row.printed old new) := by
  rw [List.map_flatMap]
  exact congrArg hunk.flatMap (funext (changeLines_eq old new))

theorem filterMap_read?_map_printed (old new : Array Text) (rows : List Row) :
    (rows.map (Row.printed old new)).filterMap Entry.read? = rows.map (Row.entry old new) := by
  rw [List.filterMap_map, ← List.filterMap_eq_map]
  exact congrArg rows.filterMap (funext (read?_printed old new))

/-- What is read of the lines of hunks is an entry for each of their rows: the
    dots between two hunks are not read as one. -/
theorem filterMap_read?_hunkLines (old new : Array Text) (hunks : List (List Change)) :
    (hunkLines false old new hunks).filterMap Entry.read? =
      (hunkRows old new hunks).map (Row.entry old new) := by
  fun_induction hunkLines false old new hunks with
  | case1 => rfl
  | case2 hunk =>
    rw [flatMap_changeLines, filterMap_read?_map_printed, hunkRows, List.flatMap_singleton]
  | case3 hunk next rest ih =>
    have hdots : Entry.read? "...".toList = none := by decide
    rw [flatMap_changeLines, List.filterMap_append, List.filterMap_cons_none hdots,
      filterMap_read?_map_printed, ih, ← List.map_append]
    rfl

/-- The lines that show hunks are lines, if those of both texts are. -/
theorem feed_not_mem_hunkLines (hold : ∀ line ∈ old, '\n' ∉ line) (hnew : ∀ line ∈ new, '\n' ∉ line)
    (hunks : List (List Change)) : ∀ line ∈ hunkLines false old new hunks, '\n' ∉ line := by
  have hhunk (hunk : List Change) :
    ∀ line ∈ hunk.flatMap (changeLines false old new), '\n' ∉ line := by
    rw [flatMap_changeLines, List.forall_mem_map]
    exact fun row _ => feed_not_mem_printed hold hnew row
  fun_induction hunkLines false old new hunks with
  | case1 => simp
  | case2 hunk => exact hhunk hunk
  | case3 hunk next rest ih =>
    rw [List.forall_mem_append, List.forall_mem_cons]
    exact ⟨hhunk hunk, by decide, ih⟩

/-- The text that shows hunks is read as an entry for each of their rows. The
    premises are that no line holds a line break, and splitting a text into its
    lines supplies both. -/
theorem readAll_hunkLines (hold : ∀ line ∈ old, '\n' ∉ line) (hnew : ∀ line ∈ new, '\n' ∉ line)
    (hunks : List (List Change)) :
    Entry.readAll (['\n'].intercalate (hunkLines false old new hunks)) =
      (hunkRows old new hunks).map (Row.entry old new) := by
  rw [← filterMap_read?_hunkLines, Entry.readAll]
  by_cases hnil : hunkLines false old new hunks = []
  · rw [hnil]
    rfl
  · rw [List.splitOn_intercalate '\n' (feed_not_mem_hunkLines hold hnew hunks) hnil]

end

/-- The lines that show hunks of the lines of two texts, as one text. The hunks
    need not be those that the program finds. -/
def shown (before after : Text) (hunks : List (List Change)) : Text :=
  ['\n'].intercalate (hunkLines false (Text.lines before).toArray (Text.lines after).toArray hunks)

/-- The preview of a change is what its own hunks are shown as. For equal texts
    it is a sentence in their place, so the texts have to differ. -/
theorem preview_eq_shown {before after : Text} (hne : before ≠ after) : preview false before after =
    shown before after (hunksBetween (Text.lines before).toArray (Text.lines after).toArray) := by
  rw [preview, if_neg hne]
  rfl

/-- What hunks are shown as is read as an entry for each of their rows. Nothing
    is asked of the texts or of the hunks. -/
theorem readAll_shown (before after : Text) (hunks : List (List Change)) :
    Entry.readAll (shown before after hunks) =
      (hunkRows (Text.lines before).toArray (Text.lines after).toArray hunks).map
        (Row.entry (Text.lines before).toArray (Text.lines after).toArray) :=
  readAll_hunkLines (by simpa using fun line => Text.feed_not_mem_of_mem_lines)
    (by simpa using fun line => Text.feed_not_mem_of_mem_lines) hunks

/-- Hunks of a valid script for the lines of two texts: only equal lines are
    left out, the others are all told of. This is all that is known of a script
    here, so what follows from it holds whichever search finds the script. -/
def ValidHunks (before after : Text) (hunks : List (List Change)) : Prop :=
  HunksLead (Text.lines before).toArray (Text.lines after).toArray ⟨0, 0⟩ hunks
    ⟨(Text.lines before).length, (Text.lines after).length⟩

/-- The hunks that the program finds are valid, by the way of its script
    through the compaction, the changes and the cutting into hunks. -/
theorem validHunks_hunksBetween (before after : Text) :
    ValidHunks before after (hunksBetween (Text.lines before).toArray (Text.lines after).toArray) :=
  hunksLead_hunks 2 (leads_changes (along_compact (along_script _ _)))

/-- No hunks are valid for a text and itself, since all of its lines are equal. -/
theorem validHunks_nil (t : Text) : ValidHunks t t [] :=
  ⟨⟨0, 0⟩, .done _, _, fun _ _ => rfl, Place.ext (Nat.zero_add _).symm (Nat.zero_add _).symm⟩

/-- What is read of a preview is read of the hunks of a valid script, also for
    equal texts, where the script is the empty one. -/
theorem exists_validHunks (before after : Text) : ∃ hunks, ValidHunks before after hunks ∧
    Entry.readAll (preview false before after) = Entry.readAll (shown before after hunks) := by
  by_cases heq : before = after
  · subst heq
    have hnone : Entry.readAll "No changes detected.".toList = [] := by decide
    refine ⟨[], validHunks_nil before, ?_⟩
    rw [preview, if_pos rfl, hnone, readAll_shown]
    rfl
  · exact ⟨_, validHunks_hunksBetween before after, by rw [preview_eq_shown heq]⟩

end Diff

end EntitySplit
