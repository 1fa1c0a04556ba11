import EntitySplit.Proofs.Text.Convention

namespace EntitySplit

namespace Text

/-- Each line that a line feed ends is ended by `eol`. A carriage return
    elsewhere ends no line and may stand anywhere. -/
inductive EndedBy : (eol t : Text) → Prop where
  | feed {t : Text} (h : ¬['\r', '\n'] <:+: t) : EndedBy ['\n'] t
  | returnFeed {t : Text} (h : EachFeedReturned t) : EndedBy ['\r', '\n'] t

/-- A carriage return stands before each line feed or before none, so that the
    lines of the text all end alike. -/
def IsUniform (t : Text) : Prop :=
  ['\r', '\n'] <:+: t → EachFeedReturned t

section

variable {eol line s t u : Text}

theorem EndedBy.isBreak (h : EndedBy eol t) : IsBreak eol := by
  cases h with
  | feed => exact Or.inl rfl
  | returnFeed => exact Or.inr rfl

theorem isUniform_of_not_mem (hreturn : '\r' ∉ t) : IsUniform t :=
  fun hbreak => absurd (hbreak.subset List.mem_cons_self) hreturn

/-- The lines of a uniform text end with the line break that is found in it. -/
theorem IsUniform.endedBy (h : IsUniform t) : EndedBy (lineEnding t) t := by
  by_cases hbreak : ['\r', '\n'] <:+: t
  · rw [lineEnding, if_pos (holds_iff.2 hbreak)]
    exact .returnFeed (h hbreak)
  · rw [lineEnding, if_neg (mt holds_iff.1 hbreak)]
    exact .feed hbreak

/-- The lines of a part end as those of the whole do, unless it is cut off
    between the two characters of a line break. -/
theorem EndedBy.part (h : EndedBy eol (s ++ (t ++ u))) (hcut : s.getLast? ≠ some '\r') :
    EndedBy eol t := by
  cases h with
  | feed h => exact .feed fun hbreak => h (hbreak.trans (List.infix_append' s t u))
  | returnFeed h =>
    rw [← List.append_assoc] at h
    exact .returnFeed (h.left.right fun hreturn => absurd hreturn hcut)

/-- The first line with its carriage return taken off is ended by the line
    break, the carriage return included. -/
theorem EndedBy.dropReturn_append (h : EndedBy eol (line ++ '\n' :: t)) :
    dropReturn line ++ eol = line ++ ['\n'] := by
  cases h with
  | feed h =>
    rw [dropReturn, if_neg]
    intro hreturn
    obtain ⟨kept, rfl⟩ := List.getLast?_eq_some_iff.1 hreturn
    exact h ⟨kept, t, by simp⟩
  | returnFeed h =>
    have hreturn := h line t rfl
    obtain ⟨kept, rfl⟩ := List.getLast?_eq_some_iff.1 hreturn
    rw [dropReturn, if_pos hreturn, List.dropLast_concat]
    simp

/-- A text all of whose lines end alike is these lines, perhaps but for the end
    of the last one. -/
theorem EndedBy.exists_append_eq (h : EndedBy eol t) :
    ∃ ends, (ends = [] ∨ ends = eol) ∧ t ++ ends = (lines t).flatMap (· ++ eol) := by
  induction t using byLines with
  | last line hfeed =>
    rw [lines_of_not_mem hfeed]
    cases line with
    | nil => exact ⟨[], Or.inl rfl, rfl⟩
    | cons c line => exact ⟨eol, Or.inr rfl, by simp⟩
  | line line rest hfeed ih =>
    have hrest : EndedBy eol rest := by
      have hwhole : line ++ '\n' :: rest = line ++ ['\n'] ++ (rest ++ []) := by simp
      exact (hwhole ▸ h).part (by simp)
    obtain ⟨ends, hends, heq⟩ := ih hrest
    refine ⟨ends, hends, ?_⟩
    rw [lines_append_feed hfeed, List.flatMap_cons, ← heq, h.dropReturn_append]
    simp

end

end Text

end EntitySplit
