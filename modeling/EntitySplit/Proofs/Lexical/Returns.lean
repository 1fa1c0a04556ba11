import EntitySplit.Lexical.Identifier
import EntitySplit.Proofs.Lexical.Respacing
import EntitySplit.Proofs.Text.Returns

namespace EntitySplit

namespace Lexical

open Text (withReturns isBlank)

/-- No backslash stands right before a line feed. A carriage return put in
    would otherwise be what the backslash takes. -/
def Unescaped (t : Text) : Prop :=
  ¬['\\', '\n'] <:+: t

theorem Unescaped.of_suffix {t rest : Text} (h : Unescaped t) (hrest : rest <:+ t) :
    Unescaped rest :=
  fun hpiece => h (hpiece.trans hrest.isInfix)

/-- A line feed may get a carriage return. This is the spacing by which a
    document and its counterpart differ. -/
def returns : Spacing where
  Rel gap gap' := gap = ['\n'] ∧ gap' = ['\r', '\n']
  isLineGap h := by
    rw [h.1, h.2]
    exact ⟨⟨[], [], Or.inl rfl, by simp, rfl⟩, ⟨['\r'], [], Or.inr rfl, by simp, rfl⟩⟩

/-- The line gaps the other way round, so that what is shown in one direction
    holds in the other. -/
def Spacing.flip (spacing : Spacing) : Spacing where
  Rel gap gap' := spacing.Rel gap' gap
  isLineGap h := (spacing.isLineGap h).symm

section

variable {escaped : Bool} {t t' : Text}

theorem Respaced.flip {spacing : Spacing} (h : Respaced spacing escaped t t') :
    Respaced spacing.flip escaped t' t := by
  induction h with
  | nil => exact .nil
  | char hc _ ih => exact .char hc ih
  | @gap gap gap' _ _ hgap _ ih =>
    have hflip : spacing.flip.Rel gap' gap := hgap
    exact .gap hflip ih

/-- A text in which each line feed has got a carriage return is the text with
    the carriage returns put in. -/
theorem Respaced.eq_withReturns (h : Respaced returns escaped t t') : t' = withReturns t := by
  induction h with
  | nil => rfl
  | char hc _ ih => rw [Text.withReturns_cons hc, ih]
  | gap hgap _ ih =>
    rw [hgap.1, hgap.2, ih]
    rfl

/-- A text and its counterpart with carriage returns are the same but for their
    line gaps, if no line feed is escaped. -/
theorem respaced_withReturns (h : Unescaped t) (hescaped : escaped = true → t.head? ≠ some '\n') :
    Respaced returns escaped t (withReturns t) := by
  induction t generalizing escaped with
  | nil => exact .nil
  | cons c t ih =>
    have hbehind : Unescaped t := h.of_suffix (List.suffix_cons c t)
    by_cases hc : c = '\n'
    · subst hc
      cases escaped with
      | false =>
        have hgap : returns.Rel ['\n'] ['\r', '\n'] := ⟨rfl, rfl⟩
        exact .gap hgap (ih hbehind (by simp))
      | true => exact absurd rfl (hescaped rfl)
    · rw [Text.withReturns_cons hc]
      refine .char hc (ih hbehind ?_)
      intro hbackslash hhead
      obtain ⟨rest, rfl⟩ := List.head?_eq_some_iff.1 hhead
      rw [of_decide_eq_true hbackslash] at h
      exact h ⟨[], rest, rfl⟩

end

section

variable {opener closer : Char} {t inside rest : Text}

/-- What matches an opener in a text matches it in the other one. Neither
    delimiter is white space. -/
theorem exists_closes_of_respaced {spacing : Spacing} {t' : Text} (hne : opener ≠ closer)
    (hopener : isBlank opener = false) (hcloser : isBlank closer = false)
    (h : Respaced spacing false t t')
    (hmatching : matching? opener closer (opener :: t) = some (inside, rest)) :
    ∃ inside' rest', matching? opener closer (opener :: t') = some (inside', rest') ∧
      Respaced spacing false rest rest' := by
  obtain ⟨heq, hcloses⟩ := (matching?_eq_some_iff hne).1 hmatching
  rw [Closes, ← (List.cons.inj heq).2] at hcloses
  obtain ⟨inside', rest', hcloses', hrest⟩ := h.exists_closesAfter hne hopener hcloser hcloses
  refine ⟨inside', rest', (matching?_eq_some_iff hne).2 ⟨by rw [← hcloses'.text_eq], ?_⟩, hrest⟩
  rw [Closes, ← hcloses'.text_eq]
  exact hcloses'

/-- The closer of an opener is the same one with carriage returns put in, and
    so is a missing one. Both directions are needed for this, hence the flipped
    spacing. -/
theorem matching?_withReturns (hne : opener ≠ closer) (hopener : isBlank opener = false)
    (hcloser : isBlank closer = false) (h : Unescaped t) : matching? opener closer (withReturns t) =
      (matching? opener closer t).map fun (inside, rest) =>
        (withReturns inside, withReturns rest) := by
  cases t with
  | nil => rfl
  | cons c t =>
    have hnone {d : Char} (hd : d ≠ opener) (u : Text) :
      matching? opener closer (d :: u) = none := by
      rw [matching?, if_neg hd]
    have hvisible {d : Char} (hd : isBlank d = true) : d ≠ opener := by
      rintro rfl
      rw [hopener] at hd
      exact absurd hd (by decide)
    by_cases hc : c = '\n'
    · subst hc
      rw [Text.withReturns_feed, hnone (hvisible (by decide)), hnone (hvisible (by decide))]
      rfl
    · rw [Text.withReturns_cons hc]
      by_cases hopens : c = opener
      · subst hopens
        have hspaced : Respaced returns false t (withReturns t) :=
          respaced_withReturns (h.of_suffix (List.suffix_cons c t)) (by simp)
        cases hmatching : matching? c closer (c :: t) with
        | none =>
          cases hmatching' : matching? c closer (c :: withReturns t) with
          | none => rfl
          | some found =>
            obtain ⟨inside, rest, hback, -⟩ :=
              exists_closes_of_respaced hne hopener hcloser hspaced.flip hmatching'
            rw [hmatching] at hback
            exact absurd hback (by simp)
        | some found =>
          obtain ⟨inside, rest⟩ := found
          obtain ⟨inside', rest', hmatching', hrest⟩ :=
            exists_closes_of_respaced hne hopener hcloser hspaced hmatching
          obtain rfl := hrest.eq_withReturns
          have hsplit := (List.cons.inj (eq_cons_append_of_matching? hmatching')).2
          have hcloser' : closer ≠ '\n' := by
            rintro rfl
            exact absurd hcloser (by decide)
          rw [(List.cons.inj (eq_cons_append_of_matching? hmatching)).2, Text.withReturns_append,
            Text.withReturns_cons hcloser'] at hsplit
          rw [hmatching', ← List.append_cancel_right hsplit]
          rfl
      · rw [hnone hopens, hnone hopens]
        rfl

end

section

variable {t : Text}

/-- A comment is the same one with carriage returns put in; escapes play no
    part in comments, so nothing is asked of the text. -/
theorem comment?_withReturns (t : Text) : comment? (withReturns t) =
    (comment? t).map fun (comment, rest) => (withReturns comment, withReturns rest) := by
  have hline :
    Text.after? ['/', '/'] (withReturns t) = (Text.after? ['/', '/'] t).map withReturns :=
    Text.after?_withReturns (by decide) t
  have hblock :
    Text.after? ['/', '*'] (withReturns t) = (Text.after? ['/', '*'] t).map withReturns :=
    Text.after?_withReturns (by decide) t
  cases hafter : Text.after? ['/', '/'] t with
  | some u =>
    rw [Text.eq_append_of_after? hafter]
    have hmark : withReturns (['/', '/'] ++ u) = '/' :: '/' :: withReturns u := rfl
    rw [hmark, comment?, Text.through_feed_withReturns]
    rfl
  | none =>
    cases hafter' : Text.after? ['/', '*'] t with
    | some u =>
      rw [Text.eq_append_of_after? hafter']
      have hmark : withReturns (['/', '*'] ++ u) = '/' :: '*' :: withReturns u := rfl
      rw [hmark, comment?, Text.through_withReturns (by decide)]
      rfl
    | none =>
      rw [hafter] at hline
      rw [hafter'] at hblock
      rw [comment?_eq_none_of_after? hafter hafter', comment?_eq_none_of_after? hline hblock]
      rfl

theorem skipTrivia_of_comment?_eq_none {c : Char} {t : Text} (hc : isSpace c = false)
    (h : comment? (c :: t) = none) :
    skipTrivia (c :: t) = c :: t := by
  rw [skipTrivia, if_neg (by simp [hc])]
  split
  · rfl
  · next hsome =>
    rw [h] at hsome
    exact absurd hsome (by simp)

theorem skipTrivia_withReturns (t : Text) :
    skipTrivia (withReturns t) = withReturns (skipTrivia t) := by
  fun_induction skipTrivia t with
  | case1 => rw [Text.withReturns_nil, skipTrivia]
  | case2 c t hspace ih =>
    by_cases hc : c = '\n'
    · subst hc
      rw [Text.withReturns_feed, skipTrivia_space (by decide), skipTrivia_space (by decide), ih]
    · rw [Text.withReturns_cons hc, skipTrivia_space hspace, ih]
  | case3 c t hspace hcomment =>
    have hc : c ≠ '\n' := by
      rintro rfl
      exact hspace (by decide)
    have hcomment' := comment?_withReturns (c :: t)
    rw [hcomment, Text.withReturns_cons hc] at hcomment'
    rw [Text.withReturns_cons hc]
    exact skipTrivia_of_comment?_eq_none (by simpa using hspace) hcomment'
  | case4 c t hspace comment rest hcomment ih =>
    have hc : c ≠ '\n' := by
      rintro rfl
      exact hspace (by decide)
    have hcomment' := comment?_withReturns (c :: t)
    rw [hcomment, Text.withReturns_cons hc] at hcomment'
    rw [Text.withReturns_cons hc, skipTrivia_of_comment? (by simpa using hspace) hcomment', ih]

/-- An identifier holds no line break, so it is the same one with carriage
    returns put in behind it. -/
theorem bareIdentifier?_withReturns (t : Text) :
    bareIdentifier? (withReturns t) = (bareIdentifier? t).map fun (name, rest) =>
      (name, withReturns rest) := by
  have hbreak : isIdentifierStart '\r' = false ∧ isIdentifierStart '\n' = false := by decide +kernel
  have hparts : isIdentifierPart '\r' = isIdentifierPart '\n' ∧ isIdentifierPart '\n' = false := by
    decide +kernel
  cases t with
  | nil => rfl
  | cons c t =>
    by_cases hc : c = '\n'
    · subst hc
      rw [Text.withReturns_feed, bareIdentifier?, bareIdentifier?, hbreak.1, hbreak.2]
      rfl
    · rw [Text.withReturns_cons hc, bareIdentifier?, bareIdentifier?,
        Text.takeWhile_withReturns hparts.1, Text.dropWhile_withReturns hparts.1,
        Text.withReturns_takeWhile hparts.2]
      split <;> rfl

/-- An identifier with or without its `@` is the same one with carriage returns
    put in. -/
theorem identifier?_withReturns (t : Text) :
    identifier? (withReturns t) = (identifier? t).map fun (name, rest) =>
      (name, withReturns rest) := by
  have hat : Text.after? ['@'] (withReturns t) = (Text.after? ['@'] t).map withReturns :=
    Text.after?_withReturns (by decide) t
  have hbare {t : Text} (hafter : Text.after? ['@'] t = none) :
    identifier? t = bareIdentifier? t := by
    rw [Text.after?_eq_none_iff] at hafter
    unfold identifier?
    split
    · exact absurd ⟨_, rfl⟩ hafter
    · rfl
  cases hafter : Text.after? ['@'] t with
  | none =>
    rw [hafter] at hat
    rw [hbare hafter, hbare hat, bareIdentifier?_withReturns]
  | some u =>
    rw [Text.eq_append_of_after? hafter]
    have hmark : withReturns (['@'] ++ u) = '@' :: withReturns u := rfl
    rw [hmark, identifier?, bareIdentifier?_withReturns, Option.map_map, List.singleton_append,
      identifier?, Option.map_map]
    rfl

end

end Lexical

end EntitySplit
