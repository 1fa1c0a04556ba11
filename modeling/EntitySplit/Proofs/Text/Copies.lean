import EntitySplit.Proofs.Text.Blank
import EntitySplit.Proofs.Text.Lines

namespace EntitySplit

namespace Text

/-- How many lines of a text are `line`, but for white space at their ends. -/
def copies (line t : Text) : Nat :=
  (lines t).countP (trim · = line)

section

variable {line t first blanks eol : Text} {ls : List Text}

@[simp] theorem copies_nil (line : Text) : copies line [] = 0 :=
  rfl

theorem trim_dropReturn (t : Text) : trim (dropReturn t) = trim t := by
  obtain ⟨ret, hret, heq⟩ := exists_dropReturn t
  have hblanks : ∀ c ∈ ret, isBlank c = true := by
    rcases hret with rfl | rfl
    · simp
    · exact List.all_eq_true.1 (by decide)
  have htrim := trim_append (t := dropReturn t) hblanks
  rw [← heq] at htrim
  exact htrim.symm

/-- A line of a text counts if it is the line asked for, and the lines behind
    it count for themselves. -/
theorem copies_line_append (line : Text) (hfeed : '\n' ∉ first) (rest : Text) :
    copies line (first ++ '\n' :: rest) = [trim first].count line + copies line rest := by
  rw [copies, lines_append_feed hfeed, List.countP_cons, trim_dropReturn, copies,
    List.count_singleton, Nat.add_comm]
  simp

/-- A line is never lost by what stands before it. -/
theorem copies_le_append_feed (line t u : Text) : copies line u ≤ copies line (t ++ '\n' :: u) := by
  induction t using byLines with
  | last t hfeed =>
    rw [copies_line_append line hfeed]
    exact Nat.le_add_left _ _
  | line first rest hfeed ih =>
    rw [List.append_assoc, List.cons_append, copies_line_append line hfeed]
    exact Nat.le_add_left_of_le ih

theorem endsLine_append_break (heol : IsBreak eol) (t : Text) : endsLine (t ++ eol) = true := by
  rcases heol with rfl | rfl
  · simp [endsLine]
  · simp [endsLine]

/-- Where a line is ended that has been ended before, there is an empty one. -/
theorem copies_nil_pos (heol : IsBreak eol) (ht : t = [] ∨ endsLine t = true) (u : Text) :
    0 < copies [] (t ++ (eol ++ u)) := by
  have hempty : 0 < copies [] (eol ++ u) := by
    obtain ⟨ret, hret, hfeed⟩ : ∃ ret, eol = ret ++ ['\n'] ∧ '\n' ∉ ret ∧ trim ret = [] := by
      rcases heol with rfl | rfl
      · exact ⟨[], rfl, by decide, by decide⟩
      · exact ⟨['\r'], rfl, by decide, by decide⟩
    rw [hret, List.append_assoc, List.singleton_append, copies_line_append [] hfeed.1, hfeed.2,
      List.count_singleton_self, Nat.one_add]
    exact Nat.succ_pos _
  rcases ht with rfl | hends
  · exact hempty
  · obtain ⟨before, rfl⟩ := List.getLast?_eq_some_iff.1 (of_decide_eq_true hends)
    rw [List.append_assoc, List.singleton_append]
    exact Nat.lt_of_lt_of_le hempty (copies_le_append_feed [] before _)

section

variable (hne : line ≠ [])

include hne

/-- A text of one line holds that alone, unless it is empty. That `line` is not
    empty covers this case, as it does in what follows. -/
theorem copies_of_not_mem (hfeed : '\n' ∉ t) : copies line t = [trim t].count line := by
  rw [copies, lines_of_not_mem hfeed]
  cases t with
  | nil => simp [show trim [] = [] from rfl, hne.symm]
  | cons c t => simp [List.count_singleton]

/-- The lines of two texts with a line feed between them are counted one by
    one. -/
theorem copies_append_feed (t u : Text) :
    copies line (t ++ '\n' :: u) = copies line t + copies line u := by
  induction t using byLines with
  | last t hfeed => rw [copies_line_append line hfeed, copies_of_not_mem hne hfeed]
  | line first rest hfeed ih =>
    rw [List.append_assoc, List.cons_append, copies_line_append line hfeed,
      copies_line_append line hfeed, ih, Nat.add_assoc]

/-- White space at the end of the last line does not matter. -/
theorem copies_append_blanks (hblank : ∀ c ∈ blanks, isBlank c = true) (hfeed : '\n' ∉ blanks)
    (t : Text) :
    copies line (t ++ blanks) = copies line t := by
  induction t using byLines with
  | last t hfeed' =>
    have hboth : '\n' ∉ t ++ blanks := by
      rw [List.mem_append, not_or]
      exact ⟨hfeed', hfeed⟩
    rw [copies_of_not_mem hne hfeed', copies_of_not_mem hne hboth, trim_append hblank]
  | line first rest hfeed' ih =>
    rw [List.append_assoc, List.cons_append, copies_line_append line hfeed',
      copies_line_append line hfeed', ih]

/-- The lines of two texts with a line break of either kind between them are
    counted one by one. -/
theorem copies_append_break (heol : IsBreak eol) (t u : Text) :
    copies line (t ++ (eol ++ u)) = copies line t + copies line u := by
  rcases heol with rfl | rfl
  · exact copies_append_feed hne t u
  · have hblank : ∀ c ∈ ['\r'], isBlank c = true := List.all_eq_true.1 (by decide)
    have hreturn := copies_append_blanks hne hblank (by decide) t
    rw [← hreturn, ← copies_append_feed hne, List.append_assoc]
    rfl

theorem copies_break_append (heol : IsBreak eol) (u : Text) :
    copies line (eol ++ u) = copies line u := by
  simpa using copies_append_break hne heol [] u

theorem copies_append_only_break (heol : IsBreak eol) (t : Text) :
    copies line (t ++ eol) = copies line t := by
  simpa using copies_append_break hne heol t []

/-- Lines put behind a text, each with a line break before it, are each there
    as often as they are listed. -/
theorem copies_append_flatMap (heol : IsBreak eol) (hls : ∀ l ∈ ls, '\n' ∉ l ∧ trim l = l)
    (t : Text) :
    copies line (t ++ ls.flatMap (eol ++ ·)) = copies line t + ls.count line := by
  induction ls generalizing t with
  | nil => simp
  | cons l ls ih =>
    obtain ⟨hl, hls⟩ := List.forall_mem_cons.1 hls
    rw [List.flatMap_cons, List.append_assoc, copies_append_break hne heol, ih hls,
      copies_of_not_mem hne hl.1, hl.2, ← List.count_append, List.singleton_append]

/-- So are lines put in front of a text, each with a line break behind it. -/
theorem copies_flatMap_append (heol : IsBreak eol) (hls : ∀ l ∈ ls, '\n' ∉ l ∧ trim l = l)
    (t : Text) :
    copies line (ls.flatMap (· ++ eol) ++ t) = ls.count line + copies line t := by
  induction ls with
  | nil => simp
  | cons l ls ih =>
    obtain ⟨hl, hls⟩ := List.forall_mem_cons.1 hls
    rw [List.flatMap_cons, List.append_assoc, List.append_assoc, copies_append_break hne heol,
      ih hls, copies_of_not_mem hne hl.1, hl.2, ← Nat.add_assoc, ← List.count_append,
      List.singleton_append]

end

end

end Text

end EntitySplit
