import EntitySplit.Proofs.Diff.Reading

namespace EntitySplit

namespace Diff

/-- Whether a row is shown with the number of its old line. The one row without
    a sign that is not is a line that differs in white space only: its new text
    is shown, with the number of the new line. -/
def Row.showsOld : Row → Bool
  | .kept _ _ | .deleted _ => true
  | .respaced _ _ | .inserted _ => false

/-- The numbers that rows are shown with, in the order in which they are shown. -/
def shownNumbers (old new : Array Text) (rows : List Row) : List Nat :=
  rows.map fun row => (row.entry old new).number

/-- What the numbers of the entries for hunks mean: which line of which text
    each of them counts, and that those which count lines of one text are in
    order. The last field names the one thing that disturbs the order of the
    entries without a plus sign. -/
structure NumbersLines (old new : Array Text) (hunks : List (List Change)) (entries : List Entry) :
    Prop where
  /-- The rows of the hunks are those of a way through all lines, without some
      of the lines kept. -/
  rows : ∃ rows, Leads (Row.Step old new) ⟨0, 0⟩ rows ⟨old.size, new.size⟩ ∧
    Shows rows (hunkRows old new hunks)
  /-- Each row is shown by its sign, the number of its old or its new line, and
      that line. -/
  entries_eq : entries = (hunkRows old new hunks).map (Row.entry old new)
  /-- The numbers of old lines are in order. -/
  old_pairwise :
    (shownNumbers old new ((hunkRows old new hunks).filter Row.showsOld)).Pairwise (· < ·)
  /-- The numbers of new lines are in order. -/
  new_pairwise :
    (shownNumbers old new ((hunkRows old new hunks).filter (! ·.showsOld))).Pairwise (· < ·)
  /-- So are those of the lines marked as inserted. -/
  inserted_pairwise : (numbersOf '+' entries).Pairwise (· < ·)
  /-- So are those of all other lines, unless one that differs in white space
      only is among them. -/
  others_pairwise : (∀ i j, Row.respaced i j ∉ hunkRows old new hunks) →
    ((entries.filter (·.sign ≠ '+')).map Entry.number).Pairwise (· < ·)

section

variable {old new : Array Text} {rows shown : List Row}

/-- A row shown with the number of its old line has an old line, and the number
    counts from one. -/
theorem number_of_showsOld {row : Row} (h : row.showsOld = true) :
    ∃ i, row.old? = some i ∧ (row.entry old new).number = i + 1 := by
  cases row with
  | kept i j => exact ⟨i, rfl, rfl⟩
  | respaced i j => exact absurd h Bool.false_ne_true
  | deleted i => exact ⟨i, rfl, rfl⟩
  | inserted j => exact absurd h Bool.false_ne_true

/-- Every other row has a new line and is shown with its number, counted from
    one. -/
theorem number_of_not_showsOld {row : Row} (h : (! row.showsOld) = true) :
    ∃ j, row.new? = some j ∧ (row.entry old new).number = j + 1 := by
  cases row with
  | kept i j => exact absurd h Bool.false_ne_true
  | respaced i j => exact ⟨j, rfl, rfl⟩
  | deleted i => exact absurd h Bool.false_ne_true
  | inserted j => exact ⟨j, rfl, rfl⟩

/-- Numbers of lines that a way takes in order are in order, whichever rows are
    shown. `htaken` is that the way takes the lines one after another, and
    `hnumber` that the rows chosen by `p` are shown by the lines they take. -/
theorem Shows.pairwise_numbers (h : Shows rows shown) {taken? : Row → Option Nat} {p : Row → Bool}
    {first count : Nat} (htaken : rows.filterMap taken? = List.range' first count)
    (hnumber : ∀ row, p row = true → ∃ k, taken? row = some k ∧
      (row.entry old new).number = k + 1) :
    (shownNumbers old new (shown.filter p)).Pairwise (· < ·) := by
  have hrows : (rows.filterMap taken?).Pairwise (· < ·) := htaken ▸ List.pairwise_lt_range'
  have hshown := (List.pairwise_filterMap.1 hrows).sublist h.sublist
  rw [shownNumbers, List.pairwise_map, List.pairwise_filter]
  refine hshown.imp fun {row row'} hlt hrow hrow' => ?_
  obtain ⟨k, hk, heq⟩ := hnumber row hrow
  obtain ⟨k', hk', heq'⟩ := hnumber row' hrow'
  have hkk' := hlt k hk k' hk'
  omega

/-- Choosing among the entries is choosing among the rows that they show. -/
theorem filter_entries (p : Entry → Bool) :
    ((shown.map (Row.entry old new)).filter p).map Entry.number =
    shownNumbers old new (shown.filter (p ∘ Row.entry old new)) := by
  rw [List.filter_map, List.map_map]
  rfl

/-- A row with a plus sign is shown with the number of its new line. -/
theorem not_showsOld_of_sign {row : Row} (h : (row.entry old new).sign = '+') :
    (! row.showsOld) = true := by
  obtain ⟨j, rfl⟩ := sign_entry_eq_plus_iff.1 h
  rfl

/-- Without a line that differs in white space only, the entries that have no
    plus sign are those shown with the number of their old line. -/
theorem filter_sign_ne_plus (h : ∀ i j, Row.respaced i j ∉ shown) :
    shown.filter ((·.sign ≠ '+') ∘ Row.entry old new) = shown.filter Row.showsOld := by
  refine List.filter_congr fun row hrow => ?_
  cases row with
  | kept i j => rfl
  | respaced i j => exact absurd hrow (h i j)
  | deleted i => rfl
  | inserted j => rfl

/-- The entries for hunks that lead through two lists have the numbers of their
    lines. The rows are those of the way, and the order of the numbers is the
    order in which a way takes lines. -/
theorem HunksLead.numbersLines {hunks : List (List Change)}
    (h : HunksLead old new ⟨0, 0⟩ hunks ⟨old.size, new.size⟩) :
    NumbersLines old new hunks ((hunkRows old new hunks).map (Row.entry old new)) := by
  obtain ⟨rows, hway, hshows⟩ := h.exists_rows
  obtain ⟨oldCount, -, holdLines⟩ := exists_oldLines hway
  obtain ⟨newCount, -, hnewLines⟩ := exists_newLines hway
  have hold : (shownNumbers old new ((hunkRows old new hunks).filter Row.showsOld)).Pairwise
    (· < ·) :=
    hshows.pairwise_numbers holdLines fun _ => number_of_showsOld
  have hnew : (shownNumbers old new ((hunkRows old new hunks).filter (! ·.showsOld))).Pairwise
    (· < ·) :=
    hshows.pairwise_numbers hnewLines fun _ => number_of_not_showsOld
  refine ⟨⟨rows, hway, hshows⟩, rfl, hold, hnew, ?_, fun hnone => ?_⟩
  · rw [numbersOf, filter_entries]
    refine hshows.pairwise_numbers hnewLines fun row hsign => number_of_not_showsOld ?_
    exact not_showsOld_of_sign (of_decide_eq_true hsign)
  · rw [filter_entries, filter_sign_ne_plus hnone]
    exact hold

end

/-- The numbers in what a valid script is shown as, which is read back from the
    text. Nothing is asked of the script but that it is valid. -/
theorem ValidHunks.numbersLines {before after : Text} {hunks : List (List Change)}
    (h : ValidHunks before after hunks) :
    NumbersLines (Text.lines before).toArray (Text.lines after).toArray hunks
      (Entry.readAll (shown before after hunks)) := by
  rw [readAll_shown]
  exact HunksLead.numbersLines h

/-- The numbers in the preview of a change, and in what any valid script is
    shown as. That the texts differ is asked for the first half only; for equal
    texts the preview is a sentence and has no entries. -/
theorem preview_numbersLines {before after : Text} (hne : before ≠ after) :
    NumbersLines (Text.lines before).toArray (Text.lines after).toArray
        (hunksBetween (Text.lines before).toArray (Text.lines after).toArray)
        (Entry.readAll (preview false before after)) ∧
      ∀ hunks, ValidHunks before after hunks →
        NumbersLines (Text.lines before).toArray (Text.lines after).toArray hunks
        (Entry.readAll (shown before after hunks)) := by
  rw [preview_eq_shown hne]
  exact ⟨(validHunks_hunksBetween before after).numbersLines, fun hunks h => h.numbersLines⟩

/-- A line between one taken out and one put in has its old number. Here no
    line differs in white space only, so the numbers of the entries without a
    plus sign are in order. -/
theorem preview_numbersLines_between : "a\nb\n".toList ≠ "b\nc\n".toList ∧
    Entry.readAll (preview false "a\nb\n".toList "b\nc\n".toList) =
      [⟨'-', 1, "a".toList⟩, ⟨' ', 2, "b".toList⟩, ⟨'+', 2, "c".toList⟩] ∧
    (((Entry.readAll (preview false "a\nb\n".toList "b\nc\n".toList)).filter (·.sign ≠ '+')).map
      Entry.number).Pairwise (· < ·) := by
  have hne : "a\nb\n".toList ≠ "b\nc\n".toList := by decide
  have hrows : hunkRows (Text.lines "a\nb\n".toList).toArray (Text.lines "b\nc\n".toList).toArray
      (hunksBetween (Text.lines "a\nb\n".toList).toArray (Text.lines "b\nc\n".toList).toArray) =
        [.deleted 0, .kept 1 0, .inserted 1] := by decide +kernel
  refine ⟨hne, by decide +kernel, (preview_numbersLines hne).1.others_pairwise fun i j => ?_⟩
  rw [hrows]
  simp

/-- A line that differs in white space only has the number of the new line,
    here that of the old line behind it. The numbers of the entries without a
    plus sign are then not in order: two of them are the same. -/
theorem respaced_numbered_as_new :
    Entry.readAll (preview false "k\n  y();\nz\n".toList "i\nk\ny();\nz\n".toList) =
        [⟨'+', 1, "i".toList⟩, ⟨' ', 1, "k".toList⟩, ⟨' ', 3, "y();".toList⟩,
          ⟨' ', 3, "z".toList⟩] ∧
      ¬(((Entry.readAll (preview false "k\n  y();\nz\n".toList "i\nk\ny();\nz\n".toList)).filter
        (·.sign ≠ '+')).map
        Entry.number).Pairwise (· < ·) := by
  decide +kernel

end Diff

end EntitySplit
