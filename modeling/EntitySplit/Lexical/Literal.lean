import EntitySplit.Text.Basic

namespace EntitySplit

namespace Lexical

/-- The rest of a literal that `quote` closes and a line feed cuts short; a
    backslash takes the next character with it, also if that is a line feed. -/
def throughQuote (quote : Char) : Text → Text × Text
  | [] => ([], [])
  | ['\\'] => (['\\'], [])
  | '\\' :: c :: t => ('\\' :: c :: (throughQuote quote t).1, (throughQuote quote t).2)
  | c :: t =>
    if c = quote then ([c], t)
    else if c = '\n' then ([], c :: t)
    else (c :: (throughQuote quote t).1, (throughQuote quote t).2)

/-- The rest of a verbatim string, in which two quotes stand for one. One that
    is not closed runs to the end of the text, over any line feeds. -/
def throughVerbatim : Text → Text × Text
  | [] => ([], [])
  | '"' :: '"' :: t => ('"' :: '"' :: (throughVerbatim t).1, (throughVerbatim t).2)
  | c :: t => if c = '"' then ([c], t) else (c :: (throughVerbatim t).1, (throughVerbatim t).2)

/-- The comment at the beginning of a text, a line comment with its line feed.
    One that is not closed runs to the end of the text. -/
def comment? : Text → Option (Text × Text)
  | '/' :: '/' :: t => some ('/' :: '/' :: (Text.through ['\n'] t).1, (Text.through ['\n'] t).2)
  | '/' :: '*' :: t =>
    some ('/' :: '*' :: (Text.through ['*', '/'] t).1, (Text.through ['*', '/'] t).2)
  | _ => none

/-- The characters that may stand before the quote of a string. -/
def isStringMark (c : Char) : Bool :=
  c = '@' || c = '$'

/-- The string whose marks and first quote have been read. Three quotes or more
    open a raw string, which the same number of quotes closes, but not after
    `@`: there two quotes stand for one. -/
def stringBody (verbatim : Bool) (t : Text) : Text × Text :=
  if verbatim then
    throughVerbatim t
  else
    let more := t.takeWhile (· = '"')
    if more.length < 2 then
      throughQuote '"' t
    else
      let body := Text.through ('"' :: more) (t.dropWhile (· = '"'))
      (more ++ body.1, body.2)

/-- The string or character literal at the beginning of a text, with the marks
    before its quote. Marks without a quotation mark behind them are code. -/
def literal? (t : Text) : Option (Text × Text) :=
  let marks := t.takeWhile isStringMark
  match t.dropWhile isStringMark with
  | '"' :: rest =>
    let body := stringBody (marks.contains '@') rest
    some (marks ++ '"' :: body.1, body.2)
  | '\'' :: rest =>
    if marks.isEmpty then some ('\'' :: (throughQuote '\'' rest).1, (throughQuote '\'' rest).2)
      else none
  | _ => none

theorem throughQuote_append (quote : Char) (t : Text) :
    (throughQuote quote t).1 ++ (throughQuote quote t).2 = t := by
  fun_induction throughQuote quote t <;> simp_all

theorem throughVerbatim_append (t : Text) : (throughVerbatim t).1 ++ (throughVerbatim t).2 = t := by
  fun_induction throughVerbatim t <;> simp_all

theorem eq_append_of_comment? {t comment rest : Text} (h : comment? t = some (comment, rest)) :
    t = comment ++ rest ∧ comment ≠ [] := by
  unfold comment? at h
  split at h <;> simp at h <;> obtain ⟨rfl, rfl⟩ := h <;> simp [Text.through_append]

theorem stringBody_append (verbatim : Bool) (t : Text) :
    (stringBody verbatim t).1 ++ (stringBody verbatim t).2 = t := by
  unfold stringBody
  split
  · exact throughVerbatim_append t
  · dsimp only
    split
    · exact throughQuote_append '"' t
    · rw [List.append_assoc, Text.through_append, List.takeWhile_append_dropWhile]

theorem eq_append_of_literal? {t literal rest : Text} (h : literal? t = some (literal, rest)) :
    t = literal ++ rest ∧ literal ≠ [] := by
  have parts := List.takeWhile_append_dropWhile (p := isStringMark) (l := t)
  unfold literal? at h
  dsimp only at h
  split at h
  · next after hdrop =>
    simp only [Option.some.injEq, Prod.mk.injEq] at h
    obtain ⟨rfl, rfl⟩ := h
    simp only [List.append_assoc, List.cons_append, stringBody_append]
    exact ⟨by rw [← hdrop, parts], by simp⟩
  · next after hdrop =>
    split at h
    · next hmarks =>
      simp only [Option.some.injEq, Prod.mk.injEq] at h
      obtain ⟨rfl, rfl⟩ := h
      simp only [List.cons_append, throughQuote_append]
      rw [List.isEmpty_iff.1 hmarks, List.nil_append] at parts
      exact ⟨by rw [← hdrop, parts], by simp⟩
    · simp at h
  · simp at h

end Lexical

end EntitySplit
