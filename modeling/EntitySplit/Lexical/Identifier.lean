import EntitySplit.Text.Basic
import EntitySplit.Text.Letter
import EntitySplit.Text.Number

namespace EntitySplit

namespace Lexical

/-- Whether an identifier may begin with a character: a letter or an
    underscore. -/
def isIdentifierStart (c : Char) : Bool :=
  c = '_' || Text.isLetter c

/-- Whether an identifier may go on with a character. Numbers beyond the
    decimal digits may stand in it as well. -/
def isIdentifierPart (c : Char) : Bool :=
  c = '_' || Text.isLetter c || Text.isNumber c

/-- The identifier at the beginning of a text that has no `@`, and what follows
    it. -/
def bareIdentifier? : Text → Option (Text × Text)
  | [] => none
  | c :: t =>
    if isIdentifierStart c
      then some (c :: t.takeWhile isIdentifierPart, t.dropWhile isIdentifierPart)
    else none

/-- The identifier at the beginning of a text, and what follows it. An `@` may
    stand in front and belongs to it. -/
def identifier? : Text → Option (Text × Text)
  | '@' :: t => (bareIdentifier? t).map fun (name, rest) => ('@' :: name, rest)
  | t => bareIdentifier? t

theorem eq_append_of_bareIdentifier? {t name rest : Text}
    (h : bareIdentifier? t = some (name, rest)) :
    t = name ++ rest := by
  unfold bareIdentifier? at h
  split at h
  · simp at h
  · split at h
    · simp only [Option.some.injEq, Prod.mk.injEq] at h
      obtain ⟨rfl, rfl⟩ := h
      simp
    · simp at h

theorem eq_append_of_identifier? {t name rest : Text} (h : identifier? t = some (name, rest)) :
    t = name ++ rest := by
  unfold identifier? at h
  split at h
  · simp only [Option.map_eq_some_iff, Prod.exists, Prod.mk.injEq] at h
    obtain ⟨bare, after, hbare, rfl, rfl⟩ := h
    rw [eq_append_of_bareIdentifier? hbare, List.cons_append]
  · exact eq_append_of_bareIdentifier? h

end Lexical

end EntitySplit
