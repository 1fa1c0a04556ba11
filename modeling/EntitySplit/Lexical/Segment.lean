import EntitySplit.Lexical.Literal

namespace EntitySplit

namespace Lexical

/-- A part of a text: a character of code, a comment or a literal. Comments and
    literals have all their marks, so segments written one after another are
    the text. -/
inductive Segment where
  | code (c : Char)
  | comment (text : Text)
  | literal (text : Text)
  deriving DecidableEq, Repr

namespace Segment

def text : Segment → Text
  | code c => [c]
  | comment t => t
  | literal t => t

/-- The first segment of a text and what follows it. What begins no comment and
    no literal is a character of code, and only the empty text has no segment. -/
def next? : Text → Option (Segment × Text)
  | [] => none
  | c :: t =>
    match comment? (c :: t) with
    | some (skipped, rest) => some (.comment skipped, rest)
    | none =>
      match literal? (c :: t) with
      | some (skipped, rest) => some (.literal skipped, rest)
      | none => some (.code c, t)

theorem eq_append_of_next? {t rest : Text} {segment : Segment}
    (h : next? t = some (segment, rest)) :
    t = segment.text ++ rest ∧ segment.text ≠ [] := by
  unfold next? at h
  split at h
  · simp at h
  · split at h
    · next hcomment =>
      simp only [Option.some.injEq, Prod.mk.injEq] at h
      obtain ⟨rfl, rfl⟩ := h
      exact eq_append_of_comment? hcomment
    · split at h
      · next hliteral =>
        simp only [Option.some.injEq, Prod.mk.injEq] at h
        obtain ⟨rfl, rfl⟩ := h
        exact eq_append_of_literal? hliteral
      · simp only [Option.some.injEq, Prod.mk.injEq] at h
        obtain ⟨rfl, rfl⟩ := h
        simp [text]

theorem length_lt_of_next? {t rest : Text} {segment : Segment}
    (h : next? t = some (segment, rest)) :
    rest.length < t.length := by
  obtain ⟨rfl, hne⟩ := eq_append_of_next? h
  have := List.length_pos_iff.2 hne
  simp only [List.length_append]
  omega

theorem next?_eq_none_iff {t : Text} : next? t = none ↔ t = [] := by
  unfold next?
  split
  · simp
  · split
    · simp
    · split <;> simp

end Segment

/-- The segments of a text from its beginning. Where one ends the next begins,
    so what a text holds is told from its beginning alone. -/
def segments (t : Text) : List Segment :=
  match _hnext : Segment.next? t with
  | none => []
  | some (segment, rest) => segment :: segments rest
termination_by t.length
decreasing_by exact Segment.length_lt_of_next? _hnext

/-- The segments of a text, written one after another, are the text. -/
theorem flatMap_text_segments (t : Text) : (segments t).flatMap Segment.text = t := by
  fun_induction segments t with
  | case1 t hnext => simp [Segment.next?_eq_none_iff.1 hnext]
  | case2 t segment rest hnext ih =>
    rw [List.flatMap_cons, ih]
    exact (Segment.eq_append_of_next? hnext).1.symm

end Lexical

end EntitySplit
