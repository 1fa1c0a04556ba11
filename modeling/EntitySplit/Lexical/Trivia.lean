import EntitySplit.Lexical.Literal

namespace EntitySplit

namespace Lexical

/-- The white space between tokens: space, tab, line feed, form feed and
    carriage return. -/
def isSpace (c : Char) : Bool :=
  c = ' ' || c = '\t' || c = '\n' || c = '\x0c' || c = '\r'

/-- The text without the trivia at its beginning: white space of ASCII and
    comments, which may stand between two tokens. -/
def skipTrivia : Text → Text
  | [] => []
  | c :: t =>
    if isSpace c then
      skipTrivia t
    else
      match _hcomment : comment? (c :: t) with
      | none => c :: t
      | some (_, rest) => skipTrivia rest
termination_by t => t.length
decreasing_by
  · simp
  · obtain ⟨heq, hne⟩ := eq_append_of_comment? _hcomment
    rw [heq, List.length_append]
    have := List.length_pos_iff.2 hne
    omega

theorem exists_append_skipTrivia (t : Text) : ∃ trivia, t = trivia ++ skipTrivia t := by
  fun_induction skipTrivia t with
  | case1 => exact ⟨[], rfl⟩
  | case2 c t hspace ih =>
    obtain ⟨trivia, heq⟩ := ih
    exact ⟨c :: trivia, by rw [List.cons_append, ← heq]⟩
  | case3 => exact ⟨[], rfl⟩
  | case4 c t hspace comment rest hcomment ih =>
    obtain ⟨trivia, heq⟩ := ih
    exact ⟨comment ++ trivia, by rw [List.append_assoc, ← heq, (eq_append_of_comment? hcomment).1]⟩

end Lexical

end EntitySplit
