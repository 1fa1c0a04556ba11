import EntitySplit.Proofs.Diff.Reading

namespace EntitySplit

namespace Diff

/-- The lines without those that have one of the numbers, the first line having
    `number`. Each number refers to the lines as they were before any was taken
    out. -/
def withoutNumbers (numbers : List Nat) : (number : Nat) → List Text → List Text
  | _, [] => []
  | number, line :: rest =>
    if number ∈ numbers then withoutNumbers numbers (number + 1) rest
    else line :: withoutNumbers numbers (number + 1) rest

/-- Puts the line of an entry in, so that it takes the position which its
    number names. -/
def Entry.putInto (lines : List Text) (entry : Entry) : List Text :=
  lines.insertIdx (entry.number - 1) entry.line

/-- The lines without the deleted ones and with the inserted ones, which are
    put in one after another. The numbers of deleted lines refer to the old
    lines, those of inserted ones to the lines as they stand in the end. -/
def patched (entries : List Entry) (lines : List Text) : List Text :=
  (entries.filter (·.sign = '+')).foldl Entry.putInto
    (withoutNumbers (numbersOf '-' entries) 1 lines)

/-- The entries of a preview make the lines of one text those of another, up to
    white space. White space has to be left out of account, as a line that
    differs in nothing else is shown without a sign and the patch leaves it
    alone. -/
structure Patches (entries : List Entry) (before after : Text) : Prop where
  /-- The patched lines are the new ones but for white space. -/
  lines : (patched entries (Text.lines before)).map Text.withoutBlanks =
    (Text.lines after).map Text.withoutBlanks
  /-- Each inserted line has come to stand where its number says. -/
  placed : ∀ entry ∈ entries, entry.sign = '+' →
    (entry.line, entry.number) ∈ (patched entries (Text.lines before)).zipIdx 1

/-- The line that is left of the old ones once the deleted lines are out. -/
def Row.left? (old : Array Text) : Row → Option Text
  | .kept i _ | .respaced i _ => some (old.getD i [])
  | .deleted _ | .inserted _ => none

/-- The line that there is in the end. For a line that differs in white space
    only it is still the old one. -/
def Row.final? (old new : Array Text) : Row → Option Text
  | .kept i _ | .respaced i _ => some (old.getD i [])
  | .deleted _ => none
  | .inserted j => some (new.getD j [])

section

variable {old new : Array Text} {start stop : Place} {rows shown : List Row}

/-- The entries with a sign are the same for the rows shown as for all rows,
    since only lines kept may be left out and these have no sign. -/
theorem Shows.filter_entry (h : Shows rows shown) {sign : Char} (hsign : sign ≠ ' ') :
    (shown.map (Row.entry old new)).filter (·.sign = sign) =
      (rows.map (Row.entry old new)).filter (·.sign = sign) := by
  have hmarked (rows : List Row) : (rows.map (Row.entry old new)).filter (·.sign = sign) =
      rows.filterMap (Option.guard (·.sign = sign) ∘ Row.entry old new) := by
    rw [← List.filterMap_eq_filter, List.filterMap_map]
  rw [hmarked, hmarked, h.filterMap_eq]
  intro i j
  exact Option.guard_eq_none_iff.2 (decide_eq_false hsign.symm)

/-- Rows that are not shown do not matter to the patch, which reads only the
    entries with a sign. -/
theorem Shows.patched_eq (h : Shows rows shown) (lines : List Text) :
    patched (shown.map (Row.entry old new)) lines =
      patched (rows.map (Row.entry old new)) lines := by
  rw [patched, numbersOf, h.filter_entry (by decide), h.filter_entry (by decide)]
  rfl

theorem drop_toList {lines : Array Text} {i : Nat} (h : i < lines.size) :
    lines.toList.drop i = lines.getD i [] :: lines.toList.drop (i + 1) := by
  rw [List.drop_eq_getElem_cons (by simpa using h), Array.getElem_toList,
    Array.getD_eq_getD_getElem?, Array.getElem?_eq_getElem h, Option.getD_some]

/-- A way deletes lines from its start on only. -/
theorem le_of_deleted_mem (h : Leads (Row.Step old new) start rows stop) {i : Nat}
    (hmem : Row.deleted i ∈ rows) :
    start.old ≤ i := by
  obtain ⟨count, -, htaken⟩ := exists_oldLines h
  have hi : i ∈ rows.filterMap Row.old? := List.mem_filterMap.2 ⟨_, hmem, rfl⟩
  rw [htaken, List.mem_range'_1] at hi
  exact hi.1

theorem withoutNumbers_drop_of_mem {numbers : List Nat} {i : Nat} (hlt : i < old.size)
    (hmem : i + 1 ∈ numbers) :
    withoutNumbers numbers (i + 1) (old.toList.drop i) =
      withoutNumbers numbers (i + 1 + 1) (old.toList.drop (i + 1)) := by
  rw [drop_toList hlt, withoutNumbers, if_pos hmem]

theorem withoutNumbers_drop_of_not_mem {numbers : List Nat} {i : Nat} (hlt : i < old.size)
    (hnot : i + 1 ∉ numbers) :
    withoutNumbers numbers (i + 1) (old.toList.drop i) =
      old.getD i [] :: withoutNumbers numbers (i + 1 + 1) (old.toList.drop (i + 1)) := by
  rw [drop_toList hlt, withoutNumbers, if_neg hnot]

/-- Without the numbers of the lines deleted on a way, the old lines are those
    that the rows leave. The induction is along the way; `hnumbers` speaks of
    the lines from its start on only, so that numbers of lines before it do not
    matter. -/
theorem withoutNumbers_rows {numbers : List Nat} (h : Leads (Row.Step old new) start rows stop)
    (hstop : stop.old = old.size)
    (hnumbers : ∀ i, start.old ≤ i → (i + 1 ∈ numbers ↔ Row.deleted i ∈ rows)) :
    withoutNumbers numbers (start.old + 1) (old.toList.drop start.old) =
      rows.filterMap (Row.left? old) := by
  induction h with
  | done place =>
    rw [hstop, List.drop_eq_nil_of_le (by simp)]
    rfl
  | @step start middle stop row rest hstep hrest ih =>
    obtain ⟨count, hcount, -⟩ := exists_oldLines hrest
    have hlater : ∀ i, middle.old ≤ i → (i + 1 ∈ numbers ↔ Row.deleted i ∈ rest) := by
      intro i hi
      have hne : Row.deleted i ≠ row := by
        rintro rfl
        obtain ⟨rfl, rfl⟩ := hstep
        exact Nat.not_succ_le_self _ hi
      rw [hnumbers i (by have := step_old hstep; omega), List.mem_cons, or_iff_right hne]
    have hlt (hmiddle : middle.old = start.old + 1) : start.old < old.size := by omega
    have hstays (hne : Row.deleted start.old ≠ row) (hmiddle : middle.old = start.old + 1) :
        withoutNumbers numbers (start.old + 1) (old.toList.drop start.old) =
          old.getD start.old [] :: rest.filterMap (Row.left? old) := by
      have hnot : start.old + 1 ∉ numbers := by
        rw [hnumbers _ (Nat.le_refl _), List.mem_cons, or_iff_right hne]
        intro hmem
        have hle := le_of_deleted_mem hrest hmem
        omega
      rw [withoutNumbers_drop_of_not_mem (hlt hmiddle) hnot, ← hmiddle, ih hstop hlater]
    cases row with
    | kept i j =>
      obtain ⟨rfl, -, -, rfl⟩ := hstep
      exact hstays nofun rfl
    | respaced i j =>
      obtain ⟨rfl, -, -, rfl⟩ := hstep
      exact hstays nofun rfl
    | deleted i =>
      obtain ⟨rfl, rfl⟩ := hstep
      have hmem : start.old + 1 ∈ numbers := (hnumbers _ (Nat.le_refl _)).2 List.mem_cons_self
      rw [withoutNumbers_drop_of_mem (hlt rfl) hmem]
      exact ih hstop hlater
    | inserted j =>
      obtain ⟨-, rfl⟩ := hstep
      exact ih hstop hlater

theorem insertIdx_length (front rest : List Text) (line : Text) :
    (front ++ rest).insertIdx front.length line = front ++ line :: rest := by
  induction front with
  | nil => rfl
  | cons first front ih =>
    rw [List.cons_append, List.length_cons, List.insertIdx_succ_cons, ih, List.cons_append]

/-- The lines inserted on a way make the lines that the rows leave the final
    ones; `front` holds those before. By `hfront` it is as long as the way has
    come in the new list, so the number of the next inserted line names the
    place directly behind it. -/
theorem foldl_putInto_rows {front : List Text} (h : Leads (Row.Step old new) start rows stop)
    (hfront : front.length = start.new) :
    ((rows.map (Row.entry old new)).filter (·.sign = '+')).foldl Entry.putInto
        (front ++ rows.filterMap (Row.left? old)) =
      front ++ rows.filterMap (Row.final? old new) := by
  induction h generalizing front with
  | done place => rfl
  | @step start middle stop row rest hstep hrest ih =>
    have hstays (line : Text) (hmiddle : middle.new = start.new + 1) :
        ((rest.map (Row.entry old new)).filter (·.sign = '+')).foldl Entry.putInto
            (front ++ line :: rest.filterMap (Row.left? old)) =
          front ++ line :: rest.filterMap (Row.final? old new) := by
      have hlength : (front ++ [line]).length = middle.new := by
        rw [List.length_append, hfront, hmiddle, List.length_singleton]
      have hrest := ih hlength
      rwa [List.append_assoc, List.append_assoc] at hrest
    cases row with
    | kept i j =>
      obtain ⟨-, -, -, rfl⟩ := hstep
      exact hstays (old.getD i []) rfl
    | respaced i j =>
      obtain ⟨-, -, -, rfl⟩ := hstep
      exact hstays (old.getD i []) rfl
    | deleted i =>
      obtain ⟨-, rfl⟩ := hstep
      exact ih hfront
    | inserted j =>
      obtain ⟨rfl, rfl⟩ := hstep
      have hput : Entry.putInto (front ++ rest.filterMap (Row.left? old))
        ((Row.inserted start.new).entry old new) =
          front ++ new.getD start.new [] :: rest.filterMap (Row.left? old) := by
        rw [← insertIdx_length, hfront]
        rfl
      refine Eq.trans ?_ (hstays (new.getD start.new []) rfl)
      rw [← hput]
      rfl

/-- The final lines of a way to the end of the new list are the new lines from
    its start on, up to white space. Only a line that differs in white space
    differs at all. -/
theorem final_eq (h : Leads (Row.Step old new) start rows stop) (hstop : stop.new = new.size) :
    (rows.filterMap (Row.final? old new)).map Text.withoutBlanks =
      (new.toList.drop start.new).map Text.withoutBlanks := by
  induction h with
  | done place =>
    rw [hstop, List.drop_eq_nil_of_le (by simp)]
    rfl
  | @step start middle stop row rest hstep hrest ih =>
    obtain ⟨count, hcount, -⟩ := exists_newLines hrest
    have hnext {line : Text} (hmiddle : middle.new = start.new + 1)
        (hline : Text.withoutBlanks line = Text.withoutBlanks (new.getD start.new [])) :
        Text.withoutBlanks line :: (rest.filterMap (Row.final? old new)).map Text.withoutBlanks =
          (new.toList.drop start.new).map Text.withoutBlanks := by
      rw [drop_toList (by omega), List.map_cons, ← hmiddle, ih hstop, hline]
    cases row with
    | kept i j =>
      obtain ⟨-, rfl, hline, rfl⟩ := hstep
      exact hnext rfl (congrArg Text.withoutBlanks hline)
    | respaced i j =>
      obtain ⟨-, rfl, hline, rfl⟩ := hstep
      exact hnext rfl hline
    | deleted i =>
      obtain ⟨-, rfl⟩ := hstep
      exact ih hstop
    | inserted j =>
      obtain ⟨rfl, rfl⟩ := hstep
      exact hnext rfl rfl

/-- An inserted line stands among the final ones with its own number, counted
    from one at the beginning of the new list. -/
theorem inserted_mem_final (h : Leads (Row.Step old new) start rows stop) {j : Nat}
    (hmem : Row.inserted j ∈ rows) :
    (new.getD j [], j + 1) ∈ (rows.filterMap (Row.final? old new)).zipIdx (start.new + 1) := by
  induction h with
  | done place => exact absurd hmem List.not_mem_nil
  | @step start middle stop row rest hstep hrest ih =>
    cases row with
    | kept i k =>
      obtain ⟨-, -, -, rfl⟩ := hstep
      exact List.mem_cons_of_mem _ (ih (by simpa using hmem))
    | respaced i k =>
      obtain ⟨-, -, -, rfl⟩ := hstep
      exact List.mem_cons_of_mem _ (ih (by simpa using hmem))
    | deleted i =>
      obtain ⟨-, rfl⟩ := hstep
      exact ih (by simpa using hmem)
    | inserted k =>
      obtain ⟨rfl, rfl⟩ := hstep
      rcases List.mem_cons.1 hmem with heq | hmem
      · obtain rfl := Row.inserted.inj heq
        exact List.mem_cons_self
      · exact List.mem_cons_of_mem _ (ih hmem)

/-- The numbers with a minus sign are those of the lines that the rows delete. -/
theorem mem_numbersOf_minus_iff (old new : Array Text) {i : Nat} :
    i + 1 ∈ numbersOf '-' (rows.map (Row.entry old new)) ↔ Row.deleted i ∈ rows := by
  rw [numbersOf, List.mem_map]
  constructor
  · rintro ⟨entry, hentry, hnumber⟩
    obtain ⟨hrow, hsign⟩ := List.mem_filter.1 hentry
    obtain ⟨row, hmem, rfl⟩ := List.mem_map.1 hrow
    obtain ⟨i', rfl⟩ := sign_entry_eq_minus_iff.1 (of_decide_eq_true hsign)
    obtain rfl := Nat.succ.inj hnumber
    exact hmem
  · intro hmem
    exact ⟨_, List.mem_filter.2 ⟨List.mem_map_of_mem hmem, rfl⟩, rfl⟩

/-- Rows that are all shown make the old lines the final ones: the deleted
    lines go first, and each inserted line finds those before it already in
    place. -/
theorem patched_rows (h : Leads (Row.Step old new) ⟨0, 0⟩ rows ⟨old.size, new.size⟩) :
    patched (rows.map (Row.entry old new)) old.toList = rows.filterMap (Row.final? old new) := by
  have hleft := withoutNumbers_rows h rfl fun i _ => mem_numbersOf_minus_iff old new
  have hput := foldl_putInto_rows h (rfl : ([] : List Text).length = 0)
  rw [List.drop_zero] at hleft
  rw [patched, hleft]
  exact hput

end

/-- The hunks of a valid script are a patch, however the script was found. What
    is shown is a part of the rows of a way through all lines, and the part
    left out does not matter by `Shows.patched_eq`. -/
theorem ValidHunks.patches {before after : Text} {hunks : List (List Change)}
    (h : ValidHunks before after hunks) :
    Patches (Entry.readAll (shown before after hunks)) before after := by
  obtain ⟨rows, hrows, hshows⟩ := HunksLead.exists_rows h
  have hpatched : patched (Entry.readAll (shown before after hunks)) (Text.lines before) =
      rows.filterMap (Row.final? (Text.lines before).toArray (Text.lines after).toArray) := by
    rw [readAll_shown, hshows.patched_eq]
    exact patched_rows hrows
  refine ⟨?_, fun entry hentry hsign => ?_⟩
  · rw [hpatched]
    exact final_eq hrows rfl
  · rw [readAll_shown] at hentry
    obtain ⟨row, hrow, rfl⟩ := List.mem_map.1 hentry
    obtain ⟨j, rfl⟩ := sign_entry_eq_plus_iff.1 hsign
    rw [hpatched]
    exact inserted_mem_final hrows (hshows.sublist.subset hrow)

/-- The preview of a change is a patch up to white space, and so is what any
    valid script is shown as. Equal texts are included: their preview has no
    entries and leaves the lines as they are. -/
theorem preview_patches (before after : Text) :
    Patches (Entry.readAll (preview false before after)) before after ∧
    ∀ hunks, ValidHunks before after hunks →
      Patches (Entry.readAll (shown before after hunks)) before after := by
  obtain ⟨hunks, hvalid, hread⟩ := exists_validHunks before after
  rw [hread]
  exact ⟨hvalid.patches, fun hunks h => h.patches⟩

/-- The script between two texts that differ by a line put in and by the
    indentation of another. The premise is that the script is valid, and
    `validHunks_hunksBetween` supplies it for every script that the program
    finds. -/
theorem preview_patches_respaced :
    ValidHunks "k\n  y();\nz\n".toList "i\nk\ny();\nz\n".toList
        [[.insert 0 1, .equal 0 1 1, .replace 1 1 2 1, .equal 2 3 1]] ∧
      Patches (Entry.readAll (shown "k\n  y();\nz\n".toList "i\nk\ny();\nz\n".toList
          [[.insert 0 1, .equal 0 1 1, .replace 1 1 2 1, .equal 2 3 1]]))
        "k\n  y();\nz\n".toList "i\nk\ny();\nz\n".toList := by
  have hfound :
    hunksBetween (Text.lines "k\n  y();\nz\n".toList).toArray
      (Text.lines "i\nk\ny();\nz\n".toList).toArray =
        [[.insert 0 1, .equal 0 1 1, .replace 1 1 2 1, .equal 2 3 1]] := by
      decide +kernel
  have hvalid := validHunks_hunksBetween "k\n  y();\nz\n".toList "i\nk\ny();\nz\n".toList
  rw [hfound] at hvalid
  exact ⟨hvalid, (preview_patches _ _).2 _ hvalid⟩

example : patched (Entry.readAll (preview false "k\n  y();\nz\n".toList "i\nk\ny();\nz\n".toList))
    ["k".toList, "  y();".toList, "z".toList] =
      ["i".toList, "k".toList, "  y();".toList, "z".toList] := by
  decide +kernel

end Diff

end EntitySplit
