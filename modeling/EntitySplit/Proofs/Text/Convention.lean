import EntitySplit.Proofs.Text.Blank
import EntitySplit.Proofs.Text.Returns

namespace EntitySplit

namespace Text

section

variable {s t : Text}

theorem eachFeedReturned_of_not_mem (hfeed : '\n' ∉ t) : EachFeedReturned t := by
  rintro before after rfl
  exact absurd (List.mem_append_right before List.mem_cons_self) hfeed

theorem EachFeedReturned.append (hs : EachFeedReturned s) (ht : EachFeedReturned t) :
    EachFeedReturned (s ++ t) := by
  intro before after heq
  rcases List.append_eq_append_iff.1 heq with ⟨middle, rfl, hmiddle⟩ | ⟨middle, rfl, hmiddle⟩
  · rw [List.getLast?_append, ht middle after hmiddle]
    rfl
  · cases middle with
    | nil => exact absurd (ht [] after hmiddle.symm) (by simp)
    | cons c middle =>
      obtain ⟨rfl, -⟩ := List.cons.inj hmiddle
      exact hs before middle rfl

theorem EachFeedReturned.left (h : EachFeedReturned (s ++ t)) : EachFeedReturned s := by
  rintro before after rfl
  apply h before (after ++ t)
  rw [List.append_assoc, List.cons_append]

/-- A cut that leaves no carriage return to its line feed leaves none without. -/
theorem EachFeedReturned.right (h : EachFeedReturned (s ++ t))
    (hcut : s.getLast? = some '\r' → t.head? ≠ some '\n') : EachFeedReturned t := by
  rintro before after rfl
  have hlast := h (s ++ before) after (List.append_assoc s before _).symm
  cases before with
  | nil =>
    rw [List.append_nil] at hlast
    exact absurd rfl (hcut hlast)
  | cons c before =>
    rwa [List.getLast?_append, List.getLast?_cons, Option.some_or, ← List.getLast?_cons] at hlast

/-- A line feed in such a text is in a line break of two characters. -/
theorem EachFeedReturned.break_infix (h : EachFeedReturned t) (hfeed : '\n' ∈ t) :
    ['\r', '\n'] <:+: t := by
  obtain ⟨before, after, rfl⟩ := List.append_of_mem hfeed
  obtain ⟨kept, rfl⟩ := List.getLast?_eq_some_iff.1 (h before after rfl)
  exact ⟨kept, after, by simp⟩

end

/-- A line-ending convention: each line feed alone, or each behind a carriage
    return. Texts without line breaks hold to both. -/
inductive Convention where
  | feed
  | returnFeed
  deriving DecidableEq, Repr

namespace Convention

/-- What ends a line. -/
def lineBreak : Convention → Text
  | feed => ['\n']
  | returnFeed => ['\r', '\n']

/-- No line of a text ends otherwise. For line feeds alone this asks for no
    carriage return anywhere. -/
def HeldBy : Convention → Text → Prop
  | feed, t => '\r' ∉ t
  | returnFeed, t => EachFeedReturned t

variable {convention : Convention} {s t : Text} {ls : List Text}

/-- A text of one line without carriage returns holds to every convention. -/
theorem heldBy_of_not_mem (hreturn : '\r' ∉ t) (hfeed : '\n' ∉ t) : convention.HeldBy t := by
  cases convention with
  | feed => exact hreturn
  | returnFeed => exact eachFeedReturned_of_not_mem hfeed

theorem heldBy_lineBreak (convention : Convention) : convention.HeldBy convention.lineBreak := by
  cases convention with
  | feed => exact List.not_mem_cons_of_ne_of_not_mem (by decide) List.not_mem_nil
  | returnFeed => exact eachFeedReturned_withReturns ['\n']

theorem HeldBy.append (hs : convention.HeldBy s) (ht : convention.HeldBy t) :
    convention.HeldBy (s ++ t) := by
  cases convention with
  | feed =>
    intro hmem
    exact (List.mem_append.1 hmem).elim hs ht
  | returnFeed => exact EachFeedReturned.append hs ht

theorem HeldBy.left (h : convention.HeldBy (s ++ t)) : convention.HeldBy s := by
  cases convention with
  | feed => exact fun hmem => h (List.mem_append_left t hmem)
  | returnFeed => exact EachFeedReturned.left h

/-- A part behind a cut holds to the convention if the cut is not between the
    two characters of a line break. -/
theorem HeldBy.right (h : convention.HeldBy (s ++ t))
    (hcut : s.getLast? = some '\r' → t.head? ≠ some '\n') :
    convention.HeldBy t := by
  cases convention with
  | feed => exact fun hmem => h (List.mem_append_right s hmem)
  | returnFeed => exact EachFeedReturned.right h hcut

theorem heldBy_nil (convention : Convention) : convention.HeldBy [] :=
  heldBy_of_not_mem List.not_mem_nil List.not_mem_nil

theorem heldBy_flatten (hls : ∀ t ∈ ls, convention.HeldBy t) : convention.HeldBy ls.flatten := by
  induction ls with
  | nil => exact heldBy_nil convention
  | cons t ls ih =>
    obtain ⟨ht, hls⟩ := List.forall_mem_cons.1 hls
    exact ht.append (ih hls)

theorem heldBy_flatMap {f : Text → Text} (hf : ∀ t ∈ ls, convention.HeldBy (f t)) :
    convention.HeldBy (ls.flatMap f) := by
  rw [List.flatMap_def]
  exact heldBy_flatten (List.forall_mem_map.2 hf)

theorem heldBy_intercalate (hs : convention.HeldBy s) (hls : ∀ t ∈ ls, convention.HeldBy t) :
    convention.HeldBy (s.intercalate ls) := by
  induction ls with
  | nil => exact heldBy_nil convention
  | cons t ls ih =>
    obtain ⟨ht, hls⟩ := List.forall_mem_cons.1 hls
    cases ls with
    | nil => rwa [List.intercalate_singleton]
    | cons u ls =>
      rw [List.intercalate_cons_cons]
      exact (ht.append hs).append (ih hls)

/-- A text without the white space at its ends holds to the convention still:
    what is cut off at the front does not end within a line break, since its
    line feed would be cut off as well. -/
theorem HeldBy.trim (h : convention.HeldBy t) : convention.HeldBy (Text.trim t) := by
  obtain ⟨left, right, heq, -, hhead, -⟩ := isTrim_trim t
  rw [heq] at h
  refine h.left.right fun _ hfeed => ?_
  exact absurd (hhead '\n' hfeed) (by decide)

/-- A text with a line break that holds to a convention is recognised as such.
    Without a line break every text is taken for one of line feeds. -/
theorem HeldBy.lineEnding_eq (h : convention.HeldBy t) (hbreak : convention.lineBreak <:+: t) :
    lineEnding t = convention.lineBreak := by
  cases convention with
  | feed => exact lineEnding_of_not_mem h
  | returnFeed =>
    have hholds : holds ['\r', '\n'] t = true := holds_iff.2 hbreak
    rw [lineEnding, if_pos hholds, lineBreak]

end Convention

end Text

end EntitySplit
