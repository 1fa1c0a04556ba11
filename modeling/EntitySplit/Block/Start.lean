import EntitySplit.Text.Blank
import EntitySplit.Text.Word

namespace EntitySplit

namespace Block

/-- What follows the `<` of the block start at the beginning of a text: the
    receiver, which no word runs into, then `.`, `Entity` and `<`, with any
    white space between them. `previous` is the character before the text.
    Comments may not stand between the parts. -/
def afterStart? (receiver : Text) (previous : Option Char) (t : Text) : Option Text :=
  if previous.any Text.isWord then
    none
  else
    (Text.after? receiver t).bind fun t =>
      (Text.after? ['.'] (t.dropWhile Text.isBlank)).bind fun t =>
        (Text.after? ['E', 'n', 't', 'i', 't', 'y'] (t.dropWhile Text.isBlank)).bind fun t =>
          Text.after? ['<'] (t.dropWhile Text.isBlank)

private theorem exists_append_of_after? {mark t rest : Text}
    (h : Text.after? mark (t.dropWhile Text.isBlank) = some rest) :
    ∃ blanks, t = blanks ++ mark ++ rest :=
  ⟨t.takeWhile Text.isBlank, by
    rw [List.append_assoc, ← Text.eq_append_of_after? h, List.takeWhile_append_dropWhile]⟩

theorem exists_append_of_afterStart? {receiver t rest : Text} {previous : Option Char}
    (h : afterStart? receiver previous t = some rest) : ∃ head, t = head ++ '<' :: rest := by
  unfold afterStart? at h
  split at h
  · simp at h
  · simp only [Option.bind_eq_some_iff] at h
    obtain ⟨t₁, h₁, t₂, h₂, t₃, h₃, h₄⟩ := h
    have e₁ := Text.eq_append_of_after? h₁
    obtain ⟨b₂, e₂⟩ := exists_append_of_after? h₂
    obtain ⟨b₃, e₃⟩ := exists_append_of_after? h₃
    obtain ⟨b₄, e₄⟩ := exists_append_of_after? h₄
    subst e₁ e₂ e₃ e₄
    refine ⟨receiver ++ (b₂ ++ ['.'] ++ (b₃ ++ ['E', 'n', 't', 'i', 't', 'y'] ++ b₄)), ?_⟩
    simp

theorem length_lt_of_afterStart? {receiver t rest : Text} {previous : Option Char}
    (h : afterStart? receiver previous t = some rest) : rest.length < t.length := by
  obtain ⟨head, rfl⟩ := exists_append_of_afterStart? h
  simp only [List.length_append, List.length_cons]
  omega

end Block

end EntitySplit
