import Mathlib.Data.List.Infix
import EntitySplit.Proofs.Text.Lines

namespace EntitySplit

namespace Text

section

variable {line t eol : Text} {ls : List Text}

/-- A carriage return stands only right before a line feed. The last character
    of a text may therefore be none. -/
def ReturnsBeforeFeeds (t : Text) : Prop :=
  ∀ before after, t = before ++ '\r' :: after → after.head? = some '\n'

theorem returnsBeforeFeeds_iff {t : Text} :
    ReturnsBeforeFeeds t ↔ ∀ rest ∈ t.tails, rest.head? = some '\r' →
      rest.tail.head? = some '\n' := by
  constructor
  · intro h rest hrest hreturn
    obtain ⟨before, rfl⟩ := (List.mem_tails rest t).1 hrest
    cases rest with
    | nil => exact absurd hreturn (by simp)
    | cons c after =>
      obtain rfl := Option.some.inj hreturn
      exact h before after rfl
  · intro h before after heq
    exact h ('\r' :: after) ((List.mem_tails _ t).2 ⟨before, heq.symm⟩) rfl

instance (t : Text) : Decidable (ReturnsBeforeFeeds t) :=
  decidable_of_iff _ returnsBeforeFeeds_iff.symm

/-- Within a line a carriage return can only stand last. -/
theorem ReturnsBeforeFeeds.eq_nil_of_line {before after rest : Text}
    (h : ReturnsBeforeFeeds (before ++ '\r' :: after ++ rest)) (hfeed : '\n' ∉ after) :
    after = [] := by
  cases after with
  | nil => rfl
  | cons c after =>
    have hhead := h before (c :: after ++ rest) (by simp)
    rw [List.cons_append, List.head?_cons, Option.some.injEq] at hhead
    exact absurd (hhead ▸ List.mem_cons_self) hfeed

/-- The lines of such a text have no carriage returns in them. -/
theorem return_not_mem_of_mem_lines (h : ReturnsBeforeFeeds t) : ∀ line ∈ lines t, '\r' ∉ line := by
  induction t using byLines with
  | last line hfeed =>
    have hreturn : '\r' ∉ line := by
      intro hmem
      obtain ⟨before, after, rfl⟩ := List.append_of_mem hmem
      have hhead := h before after rfl
      exact hfeed (List.mem_append_right before
        (List.mem_cons_of_mem _ (List.mem_of_mem_head? hhead)))
    rw [lines_of_not_mem hfeed]
    split
    · simp
    · simpa using hreturn
  | line line rest hfeed ih =>
    rw [lines_append_feed hfeed, List.forall_mem_cons]
    constructor
    · intro hmem
      have hlast {before after : Text} (heq : line = before ++ '\r' :: after) : after = [] := by
        subst heq
        exact h.eq_nil_of_line fun hmem =>
          hfeed (List.mem_append_right before (List.mem_cons_of_mem _ hmem))
      unfold dropReturn at hmem
      split at hmem
      · next hreturn =>
        obtain ⟨kept, rfl⟩ := List.getLast?_eq_some_iff.1 hreturn
        rw [List.dropLast_concat] at hmem
        obtain ⟨before, after, rfl⟩ := List.append_of_mem hmem
        exact absurd (hlast (List.append_assoc before _ ['\r'])) (by simp)
      · next hreturn =>
        obtain ⟨before, after, rfl⟩ := List.append_of_mem hmem
        obtain rfl := hlast rfl
        exact hreturn List.getLast?_concat
    · refine ih fun before after heq => h (line ++ '\n' :: before) after ?_
      rw [heq]
      simp

/-- Lines are read back from a text that they are joined to, unless the last
    one is empty. A carriage return at the end of a line would be taken for a
    part of the line break. -/
theorem lines_intercalate (heol : IsBreak eol) (hfeed : ∀ line ∈ ls, '\n' ∉ line)
    (hreturn : ∀ line ∈ ls, '\r' ∉ line)
    (hlast : ls.getLast? ≠ some []) : lines (eol.intercalate ls) = ls := by
  induction ls with
  | nil => rfl
  | cons line ls ih =>
    obtain ⟨hline, hfeed⟩ := List.forall_mem_cons.1 hfeed
    obtain ⟨hline', hreturn⟩ := List.forall_mem_cons.1 hreturn
    cases ls with
    | nil =>
      rw [List.intercalate_singleton, lines_of_not_mem hline, if_neg]
      intro hempty
      exact hlast (by rw [List.isEmpty_iff.1 hempty]; rfl)
    | cons other ls =>
      rw [List.intercalate_cons_cons]
      rw [List.getLast?_cons_cons] at hlast
      rcases heol with rfl | rfl
      · rw [List.append_assoc, List.singleton_append, lines_append_feed hline,
          ih hfeed hreturn hlast, dropReturn_of_not_mem hline']
      · have hsplit : line ++ ['\r', '\n'] ++ ['\r', '\n'].intercalate (other :: ls) =
            line ++ ['\r'] ++ '\n' :: ['\r', '\n'].intercalate (other :: ls) := by simp
        rw [hsplit, lines_append_feed (by simpa using hline), ih hfeed hreturn hlast,
          dropReturn_return]

end

end Text

end EntitySplit
