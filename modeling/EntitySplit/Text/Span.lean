import EntitySplit.Text.Basic

namespace EntitySplit

/-- A span of a text: a first byte position and the position just after the
    last byte. The span may be empty. -/
structure Span where
  start : Nat
  stop : Nat
  deriving DecidableEq, Repr

namespace Span

/-- The text before, in and after a span; none if an end of the span is no
    place to cut or the span ends before it starts. -/
def cut? (span : Span) (t : Text) : Option (Text × Text × Text) :=
  if span.start ≤ span.stop then
    (Text.splitAt? t span.stop).bind fun (most, after) =>
      (Text.splitAt? most span.start).map fun (before, inside) => (before, inside, after)
  else
    none

/-- The text in a span. -/
def slice? (span : Span) (t : Text) : Option Text :=
  (span.cut? t).map fun (_, inside, _) => inside

theorem cut?_eq_some_iff {start stop : Nat} {t before inside after : Text} :
    cut? ⟨start, stop⟩ t = some (before, inside, after) ↔
      t = before ++ inside ++ after ∧ before.size = start ∧ before.size + inside.size = stop := by
  unfold cut?
  split
  · simp only [Option.bind_eq_some_iff, Option.map_eq_some_iff, Prod.exists, Prod.mk.injEq,
      Text.splitAt?_eq_some_iff]
    constructor
    · rintro ⟨most, rest, ⟨rfl, hmost⟩, head, middle, ⟨rfl, hhead⟩, rfl, rfl, rfl⟩
      exact ⟨rfl, hhead, by rw [← hmost, Text.size_append]⟩
    · rintro ⟨rfl, hbefore, hstop⟩
      exact ⟨before ++ inside, after, ⟨rfl, by rw [Text.size_append, hstop]⟩, before, inside,
        ⟨rfl, hbefore⟩,
        rfl, rfl, rfl⟩
  · next hbackwards =>
    simp only [reduceCtorEq, false_iff]
    rintro ⟨-, rfl, rfl⟩
    exact hbackwards (Nat.le_add_right _ _)

/-- The span of a piece is the sizes of the text before it and of the text
    through it. A span that is none of the text has no piece. -/
theorem slice?_eq_some_iff {start stop : Nat} {t inside : Text} :
    slice? ⟨start, stop⟩ t = some inside ↔ ∃ before after, t = before ++ inside ++ after ∧
      before.size = start ∧ before.size + inside.size = stop := by
  simp [slice?, cut?_eq_some_iff]

end Span

end EntitySplit
