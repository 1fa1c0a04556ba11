import EntitySplit.Lexical.Identifier
import EntitySplit.Lexical.Trivia
import Mathlib.Data.List.Infix

namespace EntitySplit

namespace Text

variable {mark body t rest : Text}

theorem prefix_of_dropLast (body mark rest : Text) :
    body ++ mark.dropLast <+: body ++ (mark ++ rest) := by
  rw [List.prefix_append_right_inj]
  exact (List.dropLast_prefix mark).trans (List.prefix_append mark rest)

/-- The cut comes behind the first `mark`: it has none before, not even one
    that its own last character ends. -/
theorem through_append_mark (hne : mark ≠ []) (hfirst : ¬mark <:+: body ++ mark.dropLast) :
    through mark (body ++ (mark ++ rest)) = (body ++ mark, rest) := by
  induction body with
  | nil =>
    obtain ⟨c, mark, rfl⟩ := List.exists_cons_of_ne_nil hne
    rw [List.nil_append, List.cons_append, through, ← List.cons_append, after?_append,
      List.nil_append]
  | cons c body ih =>
    have hlater : ¬mark <:+: body ++ mark.dropLast := by
      intro hinfix
      exact hfirst (List.infix_cons_iff.2 (Or.inr hinfix))
    have hnone : after? mark (c :: body ++ (mark ++ rest)) = none := by
      rw [after?_eq_none_iff]
      intro hmark
      have hlength : mark.length ≤ (c :: body ++ mark.dropLast).length := by
        simp only [List.length_cons, List.length_append, List.length_dropLast]
        omega
      exact hfirst
        (List.prefix_of_prefix_length_le hmark
        (prefix_of_dropLast (c :: body) mark rest) hlength).isInfix
    rw [List.cons_append] at hnone
    rw [List.cons_append, through, hnone, ih hlater]
    rfl

/-- A cut with something behind it has come behind a mark, and no mark stands
    before. -/
theorem exists_of_through (hne : mark ≠ []) (h : through mark t = (body, rest))
    (hrest : rest ≠ []) :
    ∃ before, body = before ++ mark ∧ ¬mark <:+: before ++ mark.dropLast := by
  induction t generalizing body with
  | nil =>
    rw [through, Prod.mk.injEq] at h
    exact absurd h.2.symm hrest
  | cons c t ih =>
    rw [through] at h
    split at h
    · next after hafter =>
      obtain ⟨rfl, -⟩ := Prod.mk.inj h
      refine ⟨[], rfl, ?_⟩
      intro hinfix
      have hlength := hinfix.length_le
      have hpositive := List.length_pos_iff.2 hne
      rw [List.nil_append, List.length_dropLast] at hlength
      omega
    · next hnone =>
      obtain ⟨rfl, rfl⟩ := Prod.mk.inj h
      obtain ⟨before, hbefore, hfirst⟩ := ih rfl
      refine ⟨c :: before, by rw [hbefore, List.cons_append], ?_⟩
      rw [List.cons_append, List.infix_cons_iff]
      rintro (hfront | hinfix)
      · have ht : c :: t = c :: before ++ (mark ++ (through mark t).2) := by
          rw [List.cons_append, ← List.append_assoc, ← hbefore, through_append]
        rw [after?_eq_none_iff, ht] at hnone
        exact hnone (hfront.trans (prefix_of_dropLast (c :: before) mark _))
      · exact hfirst hinfix

end Text

namespace Lexical

/-- What may stand between two tokens: white space and closed comments. -/
inductive Trivia : Text → Prop where
  | nil : Trivia []
  | space {c : Char} {t : Text} (hc : isSpace c = true) (ht : Trivia t) : Trivia (c :: t)
  | line {body t : Text} (hbody : '\n' ∉ body) (ht : Trivia t) :
      Trivia ('/' :: '/' :: (body ++ '\n' :: t))
  | block {body t : Text} (hbody : ¬['*', '/'] <:+: body) (ht : Trivia t) :
      Trivia ('/' :: '*' :: (body ++ '*' :: '/' :: t))

theorem skipTrivia_space {c : Char} {t : Text} (hc : isSpace c = true) :
    skipTrivia (c :: t) = skipTrivia t := by
  rw [skipTrivia, if_pos hc]

/-- A comment is skipped as a whole. Its first character is no white space,
    which would have been skipped by itself. -/
theorem skipTrivia_of_comment? {c : Char} {t comment rest : Text} (hc : isSpace c = false)
    (h : comment? (c :: t) = some (comment, rest)) : skipTrivia (c :: t) = skipTrivia rest := by
  rw [skipTrivia, if_neg (by simp [hc])]
  split
  · next hnone =>
    rw [h] at hnone
    exact absurd hnone (by simp)
  · next hsome =>
    rw [h, Option.some.injEq, Prod.mk.injEq] at hsome
    rw [hsome.2]

/-- Nothing is skipped at a character that is neither white space nor a slash. -/
theorem skipTrivia_token {c : Char} {t : Text} (hspace : isSpace c = false) (hslash : c ≠ '/') :
    skipTrivia (c :: t) = c :: t := by
  have hnone : comment? (c :: t) = none := by
    unfold comment?
    split <;> simp_all
  rw [skipTrivia, if_neg (by simp [hspace])]
  split
  · rfl
  · next hsome =>
    rw [hnone] at hsome
    exact absurd hsome (by simp)

/-- A line comment ends at its first line feed. -/
theorem first_feed_iff {body : Text} : ¬['\n'] <:+: body ++ ['\n'].dropLast ↔ '\n' ∉ body := by
  rw [List.dropLast_singleton, List.append_nil, List.singleton_infix_iff]

/-- A block comment ends at its first `*/`, and the `*` of that is not the `/`
    of an earlier one. -/
theorem first_close_iff {body : Text} :
    ¬['*', '/'] <:+: body ++ ['*', '/'].dropLast ↔ ¬['*', '/'] <:+: body := by
  have hsuffix : ¬['*', '/'] <:+ body ++ ['*'] := by
    rintro ⟨front, heq⟩
    have hlast := congrArg List.getLast? heq
    simp at hlast
  rw [show ['*', '/'].dropLast = ['*'] from rfl, List.infix_concat_iff]
  simp [hsuffix]

/-- A line comment is read through its line feed. -/
theorem comment?_line {body : Text} (hbody : '\n' ∉ body) (rest : Text) :
    comment? ('/' :: '/' :: (body ++ '\n' :: rest)) =
      some ('/' :: '/' :: (body ++ ['\n']), rest) := by
  have hthrough : Text.through ['\n'] (body ++ '\n' :: rest) = (body ++ ['\n'], rest) :=
    Text.through_append_mark (by simp) (first_feed_iff.2 hbody)
  rw [comment?, hthrough]

/-- A block comment is read through its `*/`; another opening mark in it does
    not count. -/
theorem comment?_block {body : Text} (hbody : ¬['*', '/'] <:+: body) (rest : Text) :
    comment? ('/' :: '*' :: (body ++ '*' :: '/' :: rest)) =
      some ('/' :: '*' :: (body ++ ['*', '/']), rest) := by
  have hthrough :
    Text.through ['*', '/'] (body ++ '*' :: '/' :: rest) = (body ++ ['*', '/'], rest) :=
    Text.through_append_mark (by simp) (first_close_iff.2 hbody)
  rw [comment?, hthrough]

/-- Trivia is skipped, and the skipping goes on behind it. -/
theorem skipTrivia_append {trivia : Text} (h : Trivia trivia) (t : Text) :
    skipTrivia (trivia ++ t) = skipTrivia t := by
  have hslash : isSpace '/' = false := by decide
  induction h with
  | nil => rfl
  | space hc _ ih => rw [List.cons_append, skipTrivia_space hc, ih]
  | @line body rest hbody _ ih =>
    have hcomment := comment?_line hbody (rest ++ t)
    rw [← ih, ← skipTrivia_of_comment? hslash hcomment]
    simp
  | @block body rest hbody _ ih =>
    have hcomment := comment?_block hbody (rest ++ t)
    rw [← ih, ← skipTrivia_of_comment? hslash hcomment]
    simp

/-- A comment with something behind it is closed, so it is trivia together with
    the trivia behind it. -/
theorem trivia_append_of_comment? {t comment rest trivia : Text}
    (h : comment? t = some (comment, rest))
    (hrest : rest ≠ []) (htrivia : Trivia trivia) : Trivia (comment ++ trivia) := by
  unfold comment? at h
  split at h
  · next body =>
    simp only [Option.some.injEq, Prod.mk.injEq] at h
    obtain ⟨rfl, rfl⟩ := h
    obtain ⟨before, hbefore, hfirst⟩ := Text.exists_of_through (by simp) rfl hrest
    rw [hbefore]
    have hline := Trivia.line (first_feed_iff.1 hfirst) htrivia
    simpa using hline
  · next body =>
    simp only [Option.some.injEq, Prod.mk.injEq] at h
    obtain ⟨rfl, rfl⟩ := h
    obtain ⟨before, hbefore, hfirst⟩ := Text.exists_of_through (by simp) rfl hrest
    rw [hbefore]
    have hblock := Trivia.block (first_close_iff.1 hfirst) htrivia
    simpa using hblock
  · exact absurd h (by simp)

/-- What is skipped is trivia, if something is left. Without anything left, an
    unclosed comment may have been skipped. -/
theorem exists_trivia {t : Text} (hne : skipTrivia t ≠ []) :
    ∃ trivia, Trivia trivia ∧ t = trivia ++ skipTrivia t := by
  fun_induction skipTrivia t with
  | case1 => exact ⟨[], .nil, rfl⟩
  | case2 c t hspace ih =>
    obtain ⟨trivia, htrivia, heq⟩ := ih hne
    exact ⟨c :: trivia, .space hspace htrivia, by rw [List.cons_append, ← heq]⟩
  | case3 => exact ⟨[], .nil, rfl⟩
  | case4 c t hspace comment rest hcomment ih =>
    obtain ⟨trivia, htrivia, heq⟩ := ih hne
    have hrest : rest ≠ [] := by
      rintro rfl
      exact hne (by simp [skipTrivia])
    refine ⟨comment ++ trivia, trivia_append_of_comment? hcomment hrest htrivia, ?_⟩
    rw [List.append_assoc, ← heq, (eq_append_of_comment? hcomment).1]

/-- No trivia begins with the character. -/
def BeginsToken (c : Char) : Prop :=
  isSpace c = false ∧ c ≠ '/'
deriving Decidable

section

variable {c c' : Char} {t t' rest trivia trivia' mark : Text}

/-- Skipping stops at a character that begins a token exactly where trivia and
    that character stand. -/
theorem skipTrivia_eq_cons_iff (hc : BeginsToken c) :
    skipTrivia t = c :: rest ↔ ∃ trivia, Trivia trivia ∧ t = trivia ++ c :: rest := by
  constructor
  · intro h
    obtain ⟨trivia, htrivia, heq⟩ := exists_trivia (t := t) (by simp [h])
    exact ⟨trivia, htrivia, by rw [← h, ← heq]⟩
  · rintro ⟨trivia, htrivia, rfl⟩
    rw [skipTrivia_append htrivia, skipTrivia_token hc.1 hc.2]

/-- A mark is found behind what is skipped exactly where trivia and the mark
    stand. It must begin a token. -/
theorem after?_skipTrivia_eq_some_iff (hc : BeginsToken c) :
    Text.after? (c :: mark) (skipTrivia t) = some rest ↔
      ∃ trivia, Trivia trivia ∧ t = trivia ++ c :: (mark ++ rest) := by
  rw [Text.after?_eq_some_iff, List.cons_append, skipTrivia_eq_cons_iff hc]

/-- The trivia before a token is determined, and so is where the token begins. -/
theorem Trivia.append_inj (h : Trivia trivia) (h' : Trivia trivia') (hc : BeginsToken c)
    (hc' : BeginsToken c')
    (heq : trivia ++ c :: t = trivia' ++ c' :: t') : trivia = trivia' ∧ c :: t = c' :: t' := by
  have htoken : c :: t = c' :: t' := by
    rw [← skipTrivia_token hc.1 hc.2, ← skipTrivia_append h, heq, skipTrivia_append h',
      skipTrivia_token hc'.1 hc'.2]
  rw [← htoken] at heq
  exact ⟨List.append_cancel_right heq, htoken⟩

end

/-- An identifier as written, with the `@` that may stand before it. -/
def IsIdentifier (name : Text) : Prop :=
  ∃ mark first parts, name = mark ++ first :: parts ∧ (mark = [] ∨ mark = ['@']) ∧
    isIdentifierStart first = true ∧ ∀ c ∈ parts, isIdentifierPart c = true

/-- Nothing that goes on an identifier begins the text. -/
def EndsIdentifier (rest : Text) : Prop :=
  ∀ c ∈ rest.head?, isIdentifierPart c = false

section

variable {t name rest : Text} {c : Char}

/-- A name without `@` is read exactly where it is written and not gone on
    with. -/
theorem bareIdentifier?_eq_some_iff :
    bareIdentifier? t = some (name, rest) ↔ t = name ++ rest ∧ EndsIdentifier rest ∧
      ∃ first parts, name = first :: parts ∧ isIdentifierStart first = true ∧
        ∀ c ∈ parts, isIdentifierPart c = true := by
  constructor
  · intro h
    refine ⟨eq_append_of_bareIdentifier? h, ?_⟩
    unfold bareIdentifier? at h
    split at h
    · exact absurd h (by simp)
    · next first t =>
      split at h
      · next hfirst =>
        simp only [Option.some.injEq, Prod.mk.injEq] at h
        obtain ⟨rfl, rfl⟩ := h
        obtain ⟨run, rest, rfl, hrun, hrest⟩ := Text.exists_run isIdentifierPart t
        rw [Text.takeWhile_run_append hrun hrest, Text.dropWhile_run_append hrun hrest]
        exact ⟨hrest, first, run, rfl, hfirst, hrun⟩
      · exact absurd h (by simp)
  · rintro ⟨rfl, hrest, first, parts, rfl, hfirst, hparts⟩
    rw [List.cons_append, bareIdentifier?, if_pos hfirst, Text.takeWhile_run_append hparts hrest,
      Text.dropWhile_run_append hparts hrest]

theorem isIdentifierStart_at : isIdentifierStart '@' = false := by
  decide +kernel

/-- An identifier is read exactly where it is written and not gone on with. The
    grammar of blocks uses identifiers through this. -/
theorem identifier?_eq_some_iff :
    identifier? t = some (name, rest) ↔ t = name ++ rest ∧ EndsIdentifier rest ∧
      IsIdentifier name := by
  unfold identifier?
  split
  · next t =>
    simp only [Option.map_eq_some_iff, Prod.exists, Prod.mk.injEq, bareIdentifier?_eq_some_iff]
    constructor
    · rintro ⟨_, _, ⟨rfl, hrest, first, parts, rfl, hfirst, hparts⟩, rfl, rfl⟩
      exact ⟨rfl, hrest, ['@'], first, parts, rfl, Or.inr rfl, hfirst, hparts⟩
    · rintro ⟨heq, hrest, mark, first, parts, rfl, rfl | rfl, hfirst, hparts⟩
      · obtain ⟨rfl, -⟩ := List.cons.inj heq
        rw [isIdentifierStart_at] at hfirst
        exact absurd hfirst (by decide)
      · obtain ⟨-, rfl⟩ := List.cons.inj heq
        exact ⟨first :: parts, rest, ⟨rfl, hrest, first, parts, rfl, hfirst, hparts⟩, rfl, rfl⟩
  · next hat =>
    rw [bareIdentifier?_eq_some_iff]
    constructor
    · rintro ⟨heq, hrest, first, parts, hname, hfirst, hparts⟩
      exact ⟨heq, hrest, [], first, parts, hname, Or.inl rfl, hfirst, hparts⟩
    · rintro ⟨rfl, hrest, mark, first, parts, rfl, rfl | rfl, hfirst, hparts⟩
      · exact ⟨rfl, hrest, first, parts, rfl, hfirst, hparts⟩
      · exact absurd rfl (hat _)

theorem beginsToken_of_isIdentifierStart (hc : isIdentifierStart c = true) : BeginsToken c := by
  have hspaces : [' ', '\t', '\n', '\x0c', '\r'].all (!isIdentifierStart ·) = true := by
    decide +kernel
  constructor
  · rw [Bool.eq_false_iff]
    intro hspace
    have hnot := List.all_eq_true.1 hspaces c (by simpa [isSpace, or_assoc] using hspace)
    rw [hc] at hnot
    exact absurd hnot (by decide)
  · rintro rfl
    exact absurd hc (by decide +kernel)

/-- An identifier begins with a character that begins a token and is no
    parenthesis, so that a parameter in parentheses is told from a bare one. -/
theorem IsIdentifier.exists_cons (h : IsIdentifier name) :
    ∃ c t, name = c :: t ∧ BeginsToken c ∧ c ≠ '(' := by
  obtain ⟨mark, first, parts, rfl, rfl | rfl, hfirst, -⟩ := h
  · refine ⟨first, parts, rfl, beginsToken_of_isIdentifierStart hfirst, ?_⟩
    rintro rfl
    exact absurd hfirst (by decide +kernel)
  · exact ⟨'@', first :: parts, rfl, by decide, by decide⟩

/-- A character that neither begins nor goes on an identifier is not in one,
    unless it is the `@`. -/
theorem IsIdentifier.not_mem (h : IsIdentifier name) (hat : c ≠ '@')
    (hstart : isIdentifierStart c = false) (hpart : isIdentifierPart c = false) : c ∉ name := by
  obtain ⟨mark, first, parts, rfl, hmark, hfirst, hparts⟩ := h
  intro hc
  rcases List.mem_append.1 hc with hc | hc
  · rcases hmark with rfl | rfl
    · exact absurd hc (by simp)
    · exact hat (List.mem_singleton.1 hc)
  · rcases List.mem_cons.1 hc with rfl | hc
    · rw [hfirst] at hstart
      exact absurd hstart (by decide)
    · rw [hparts c hc] at hpart
      exact absurd hpart (by decide)

/-- Neither trivia nor the token behind it goes on an identifier, where the
    token does not. -/
theorem Trivia.endsIdentifier {trivia : Text} (h : Trivia trivia)
    (hc : isIdentifierPart c = false) :
    EndsIdentifier (trivia ++ c :: t) := by
  have hslash : isIdentifierPart '/' = false := by decide +kernel
  have hspaces : [' ', '\t', '\n', '\x0c', '\r'].all (!isIdentifierPart ·) = true := by
    decide +kernel
  intro d hd
  cases h with
  | nil =>
    obtain rfl := Option.some.inj hd
    exact hc
  | @space e _ hspace _ =>
    obtain rfl := Option.some.inj hd
    have hnot := List.all_eq_true.1 hspaces e (by simpa [isSpace, or_assoc] using hspace)
    exact Bool.not_eq_true' _ |>.mp hnot
  | line _ _ =>
    obtain rfl := Option.some.inj hd
    exact hslash
  | block _ _ =>
    obtain rfl := Option.some.inj hd
    exact hslash

end

end Lexical

end EntitySplit
