import EntitySplit.Proofs.Lexical.Reading
import EntitySplit.Text.Blank

namespace EntitySplit

namespace Text

/-- A line break, with a carriage return or without, and white space behind it,
    which may hold further line breaks. -/
def IsLineGap (t : Text) : Prop :=
  ∃ ret blanks, (ret = [] ∨ ret = ['\r']) ∧ (∀ c ∈ blanks, isBlank c = true) ∧
    t = ret ++ '\n' :: blanks

theorem IsLineGap.isBlank {t : Text} (h : IsLineGap t) : ∀ c ∈ t, Text.isBlank c = true := by
  obtain ⟨ret, blanks, hret, hblanks, rfl⟩ := h
  have hreturn : ∀ c ∈ ret, Text.isBlank c = true := by
    rcases hret with rfl | rfl <;> decide
  intro c hc
  rcases List.mem_append.1 hc with hc | hc
  · exact hreturn c hc
  · rcases List.mem_cons.1 hc with rfl | hc
    · decide
    · exact hblanks c hc

theorem IsLineGap.exists_cons {t : Text} (h : IsLineGap t) :
    ∃ c rest, t = c :: rest ∧ Text.isBlank c = true := by
  obtain ⟨c, rest, rfl⟩ : ∃ c rest, t = c :: rest := by
    obtain ⟨ret, blanks, rfl | rfl, -, rfl⟩ := h
    · exact ⟨_, _, rfl⟩
    · exact ⟨_, _, rfl⟩
  exact ⟨c, rest, rfl, h.isBlank c List.mem_cons_self⟩

end Text

namespace Lexical

open Text (isBlank IsLineGap)

/-- Which line gap may take the place of which. -/
structure Spacing where
  Rel : (gap gap' : Text) → Prop
  isLineGap {gap gap' : Text} (h : Rel gap gap') : IsLineGap gap ∧ IsLineGap gap'

/-- The same text but for its line gaps, none of which stands behind a
    backslash. `escaped` tells that the texts themselves stand behind one. -/
inductive Respaced (spacing : Spacing) : (escaped : Bool) → (t t' : Text) → Prop where
  | nil {escaped : Bool} : Respaced spacing escaped [] []
  | char {escaped : Bool} {c : Char} {t t' : Text} (hc : c ≠ '\n')
      (ht : Respaced spacing (c = '\\') t t') : Respaced spacing escaped (c :: t) (c :: t')
  | gap {gap gap' t t' : Text} (hgap : spacing.Rel gap gap') (ht : Respaced spacing false t t') :
      Respaced spacing false (gap ++ t) (gap' ++ t')

/-- The same text but for its line gaps and for white space at its beginning.
    This is how texts go on behind a comment, whose end takes in a part of a
    gap. -/
def Resumes (spacing : Spacing) (t t' : Text) : Prop :=
  ∃ blanks blanks' rest rest', (∀ c ∈ blanks, isBlank c = true) ∧
    (∀ c ∈ blanks', isBlank c = true) ∧
    t = blanks ++ rest ∧ t' = blanks' ++ rest' ∧ Respaced spacing false rest rest'

section

variable {spacing : Spacing} {escaped : Bool} {t t' mark : Text}

/-- What is the same behind a backslash is the same without one, where less is
    asked. -/
theorem Respaced.unescape (h : Respaced spacing escaped t t') : Respaced spacing false t t' := by
  cases h with
  | nil => exact .nil
  | char hc ht => exact .char hc ht
  | gap hgap ht => exact .gap hgap ht

theorem Respaced.resumes (h : Respaced spacing escaped t t') : Resumes spacing t t' :=
  ⟨[], [], t, t', by simp, by simp, rfl, rfl, h.unescape⟩

theorem Respaced.eq_nil (h : Respaced spacing escaped t t') (ht : t = []) : t' = [] := by
  cases h with
  | nil => rfl
  | char => exact absurd ht (by simp)
  | gap hgap _ =>
    obtain ⟨c, rest, rfl, -⟩ := (spacing.isLineGap hgap).1.exists_cons
    exact absurd ht (by simp)

theorem Resumes.nil : Resumes spacing [] [] :=
  ⟨[], [], [], [], by simp, by simp, rfl, rfl, .nil⟩

/-- A mark without white space begins both texts or neither, and behind it they
    are alike. It must have no white space, as a gap could be cut in it. -/
theorem Respaced.after? (h : Respaced spacing escaped t t')
    (hmark : ∀ c ∈ mark, isBlank c = false) :
    (∃ rest rest', Text.after? mark t = some rest ∧ Text.after? mark t' = some rest' ∧
      Respaced spacing false rest rest') ∨
        (Text.after? mark t = none ∧ Text.after? mark t' = none) := by
  induction mark generalizing escaped t t' with
  | nil => exact Or.inl ⟨t, t', rfl, rfl, h.unescape⟩
  | cons m mark ih =>
    have hm := hmark m List.mem_cons_self
    cases h with
    | nil => exact Or.inr ⟨rfl, rfl⟩
    | @char _ c t t' hc ht =>
      rw [Text.after?_cons_cons, Text.after?_cons_cons]
      split
      · exact ih ht fun d hd => hmark d (List.mem_cons_of_mem m hd)
      · exact Or.inr ⟨rfl, rfl⟩
    | @gap gap gap' t t' hgap ht =>
      have hnone {gap u : Text} (hline : IsLineGap gap) :
        Text.after? (m :: mark) (gap ++ u) = none := by
        obtain ⟨c, rest, rfl, hblank⟩ := hline.exists_cons
        have hne : m ≠ c := by
          rintro rfl
          rw [hm] at hblank
          exact absurd hblank (by decide)
        exact Text.after?_cons_of_ne hne mark (rest ++ u)
      obtain ⟨hline, hline'⟩ := spacing.isLineGap hgap
      exact Or.inr ⟨hnone hline, hnone hline'⟩

/-- A run of characters that are no white space is the same in both texts, and
    behind it they are alike. -/
theorem Respaced.run (h : Respaced spacing escaped t t') {p : Char → Bool}
    (hp : ∀ c, isBlank c = true → p c = false) :
    t.takeWhile p = t'.takeWhile p ∧ Respaced spacing false (t.dropWhile p) (t'.dropWhile p) := by
  induction h with
  | nil => exact ⟨rfl, .nil⟩
  | @char escaped c t t' hc ht ih =>
    cases hpc : p c with
    | true =>
      rw [List.takeWhile_cons_of_pos hpc, List.takeWhile_cons_of_pos hpc,
        List.dropWhile_cons_of_pos hpc, List.dropWhile_cons_of_pos hpc, ih.1]
      exact ⟨rfl, ih.2⟩
    | false =>
      have hnot : ¬p c = true := by simp [hpc]
      rw [List.takeWhile_cons_of_neg hnot, List.takeWhile_cons_of_neg hnot,
        List.dropWhile_cons_of_neg hnot, List.dropWhile_cons_of_neg hnot]
      exact ⟨rfl, .char hc ht⟩
  | @gap gap gap' t t' hgap ht =>
    obtain ⟨hline, hline'⟩ := spacing.isLineGap hgap
    have hgap₀ := Respaced.gap hgap ht
    obtain ⟨c, rest, rfl, hc⟩ := hline.exists_cons
    obtain ⟨c', rest', rfl, hc'⟩ := hline'.exists_cons
    have hnot : ¬p c = true := by simp [hp c hc]
    have hnot' : ¬p c' = true := by simp [hp c' hc']
    rw [List.cons_append, List.cons_append, List.takeWhile_cons_of_neg hnot,
      List.takeWhile_cons_of_neg hnot', List.dropWhile_cons_of_neg hnot,
      List.dropWhile_cons_of_neg hnot']
    exact ⟨rfl, hgap₀⟩

/-- White space is gone over in the search for a mark that does not begin with
    any. -/
theorem through_blanks {blanks : Text} (hblanks : ∀ c ∈ blanks, isBlank c = true) {m : Char}
    (hm : isBlank m = false) (mark t : Text) :
    (Text.through (m :: mark) (blanks ++ t)).2 = (Text.through (m :: mark) t).2 := by
  induction blanks with
  | nil => rfl
  | cons c blanks ih =>
    have hne : m ≠ c := by
      rintro rfl
      rw [hblanks m List.mem_cons_self] at hm
      exact absurd hm (by decide)
    rw [List.cons_append, Text.through, Text.after?_cons_of_ne hne]
    exact ih fun d hd => hblanks d (List.mem_cons_of_mem c hd)

/-- Behind the first mark the texts are alike. A mark has no white space in it,
    so no gap goes over it. -/
theorem Respaced.through (h : Respaced spacing escaped t t') {m : Char}
    (hmark : ∀ c ∈ m :: mark, isBlank c = false) :
    Respaced spacing false (Text.through (m :: mark) t).2 (Text.through (m :: mark) t').2 := by
  induction h with
  | nil => exact .nil
  | @char escaped c t t' hc ht ih =>
    have hchar : Respaced spacing false (c :: t) (c :: t') := .char hc ht
    rw [Text.through, Text.through]
    rcases hchar.after? hmark with ⟨rest, rest', h₁, h₂, hrest⟩ | ⟨h₁, h₂⟩
    · rw [h₁, h₂]
      exact hrest
    · rw [h₁, h₂]
      exact ih
  | gap hgap _ ih =>
    obtain ⟨hline, hline'⟩ := spacing.isLineGap hgap
    have hm := hmark m List.mem_cons_self
    rw [through_blanks hline.isBlank hm, through_blanks hline'.isBlank hm]
    exact ih

/-- Behind the first line feed the texts are alike but for the rest of the gap
    that it belongs to. -/
theorem Respaced.throughLine (h : Respaced spacing escaped t t') :
    Resumes spacing (Text.through ['\n'] t).2 (Text.through ['\n'] t').2 := by
  induction h with
  | nil => exact .nil
  | char hc _ ih =>
    rw [Text.through, Text.through, Text.after?_cons_of_ne (Ne.symm hc),
      Text.after?_cons_of_ne (Ne.symm hc)]
    exact ih
  | @gap gap gap' t t' hgap ht =>
    have hrest {gap : Text} (hline : IsLineGap gap) (u : Text) :
      ∃ blanks, (∀ c ∈ blanks, isBlank c = true) ∧
          (Text.through ['\n'] (gap ++ u)).2 = blanks ++ u := by
        obtain ⟨ret, blanks, hret, hblanks, rfl⟩ := hline
        have hfeed : '\n' ∉ ret := by
          rcases hret with rfl | rfl <;> decide
        have hthrough :
          Text.through ['\n'] (ret ++ '\n' :: (blanks ++ u)) = (ret ++ ['\n'], blanks ++ u) :=
          Text.through_append_mark (by simp) (first_feed_iff.2 hfeed)
        exact ⟨blanks, hblanks, by rw [List.append_assoc, List.cons_append, hthrough]⟩
    obtain ⟨hline, hline'⟩ := spacing.isLineGap hgap
    obtain ⟨blanks, hblanks, heq⟩ := hrest hline t
    obtain ⟨blanks', hblanks', heq'⟩ := hrest hline' t'
    exact ⟨blanks, blanks', t, t', hblanks, hblanks', heq, heq', ht⟩

theorem throughVerbatim_plain {c : Char} (hquote : c ≠ '"') (t : Text) :
    (throughVerbatim (c :: t)).2 = (throughVerbatim t).2 := by
  simp [throughVerbatim, hquote]

theorem throughVerbatim_closed {c : Char} (hquote : c ≠ '"') (t : Text) :
    (throughVerbatim ('"' :: c :: t)).2 = c :: t := by
  simp [throughVerbatim, hquote]

theorem throughVerbatim_blanks {blanks : Text} (hblanks : ∀ c ∈ blanks, isBlank c = true)
    (t : Text) :
    (throughVerbatim (blanks ++ t)).2 = (throughVerbatim t).2 := by
  induction blanks with
  | nil => rfl
  | cons c blanks ih =>
    have hquote : c ≠ '"' := by
      rintro rfl
      exact absurd (hblanks _ List.mem_cons_self) (by decide)
    rw [List.cons_append, throughVerbatim_plain hquote,
      ih fun d hd => hblanks d (List.mem_cons_of_mem c hd)]

/-- A quote ends a verbatim string or stands for one, as what follows it says.
    So what comes behind one is stated with what comes behind none. Line gaps
    stand in the string like other characters. -/
theorem Respaced.throughVerbatim (h : Respaced spacing escaped t t') :
    Respaced spacing false (Lexical.throughVerbatim t).2 (Lexical.throughVerbatim t').2 ∧
      Respaced spacing false (Lexical.throughVerbatim ('"' :: t)).2
        (Lexical.throughVerbatim ('"' :: t')).2 := by
  induction h with
  | nil => exact ⟨.nil, .nil⟩
  | @char escaped c t t' hc ht ih =>
    by_cases hquote : c = '"'
    · subst hquote
      exact ⟨ih.2, ih.1⟩
    · have hchar : Respaced spacing false (c :: t) (c :: t') := .char hc ht
      rw [throughVerbatim_plain hquote, throughVerbatim_plain hquote, throughVerbatim_closed hquote,
        throughVerbatim_closed hquote]
      exact ⟨ih.1, hchar⟩
  | @gap gap gap' t t' hgap ht ih =>
    have hquoted {gap : Text} (hline : IsLineGap gap) (u : Text) :
        (Lexical.throughVerbatim ('"' :: (gap ++ u))).2 = gap ++ u := by
      obtain ⟨c, rest, rfl, hc⟩ := hline.exists_cons
      have hquote : c ≠ '"' := by
        rintro rfl
        exact absurd hc (by decide)
      exact throughVerbatim_closed hquote (rest ++ u)
    obtain ⟨hline, hline'⟩ := spacing.isLineGap hgap
    rw [throughVerbatim_blanks hline.isBlank, throughVerbatim_blanks hline'.isBlank, hquoted hline,
      hquoted hline']
    exact ⟨ih.1, .gap hgap ht⟩

theorem throughQuote_escape (quote c : Char) (t : Text) :
    (throughQuote quote ('\\' :: c :: t)).2 = (throughQuote quote t).2 := by
  simp [throughQuote]

theorem throughQuote_plain {quote c : Char} (hescape : c ≠ '\\') (hclose : c ≠ quote)
    (hfeed : c ≠ '\n') (t : Text) :
    (throughQuote quote (c :: t)).2 = (throughQuote quote t).2 := by
  simp [throughQuote, hescape, hclose, hfeed]

theorem throughQuote_close {quote : Char} (hescape : quote ≠ '\\') (t : Text) :
    (throughQuote quote (quote :: t)).2 = t := by
  simp [throughQuote, hescape]

theorem throughQuote_feed {quote : Char} (hquote : isBlank quote = false) (t : Text) :
    (throughQuote quote ('\n' :: t)).2 = '\n' :: t := by
  have hne : '\n' ≠ quote := by
    rintro rfl
    exact absurd hquote (by decide)
  simp [throughQuote, hne]

/-- A quoted literal closes in both texts or is cut short at the same line
    break. Behind a backslash there is no line break for it to go over. -/
theorem Respaced.throughQuote (h : Respaced spacing escaped t t') {quote : Char}
    (hquote : isBlank quote = false) :
    Resumes spacing (Lexical.throughQuote quote t).2 (Lexical.throughQuote quote t').2 ∧
      (escaped = true →
        Resumes spacing (Lexical.throughQuote quote ('\\' :: t)).2
          (Lexical.throughQuote quote ('\\' :: t')).2) := by
  induction h with
  | nil => exact ⟨.nil, fun _ => .nil⟩
  | @char escaped c t t' hc ht ih =>
    refine ⟨?_, fun _ => ?_⟩
    · by_cases hescape : c = '\\'
      · subst hescape
        exact ih.2 rfl
      · by_cases hclose : c = quote
        · subst hclose
          rw [throughQuote_close hescape, throughQuote_close hescape]
          exact ht.resumes
        · rw [throughQuote_plain hescape hclose hc, throughQuote_plain hescape hclose hc]
          exact ih.1
    · rw [throughQuote_escape, throughQuote_escape]
      exact ih.1
  | @gap gap gap' t t' hgap ht =>
    have hcut {gap : Text} (hline : IsLineGap gap) (u : Text) :
      ∃ blanks, (∀ c ∈ blanks, isBlank c = true) ∧
          (Lexical.throughQuote quote (gap ++ u)).2 = blanks ++ u := by
        obtain ⟨ret, blanks, hret, hblanks, rfl⟩ := hline
        refine ⟨'\n' :: blanks, ?_, ?_⟩
        · intro c hc
          rcases List.mem_cons.1 hc with rfl | hc
          · decide
          · exact hblanks c hc
        · rcases hret with rfl | rfl
          · exact throughQuote_feed hquote (blanks ++ u)
          · have hne : '\r' ≠ quote := by
              rintro rfl
              exact absurd hquote (by decide)
            exact (throughQuote_plain (by decide) hne (by decide) _).trans
              (throughQuote_feed hquote (blanks ++ u))
    obtain ⟨hline, hline'⟩ := spacing.isLineGap hgap
    obtain ⟨blanks, hblanks, heq⟩ := hcut hline t
    obtain ⟨blanks', hblanks', heq'⟩ := hcut hline' t'
    exact ⟨⟨blanks, blanks', t, t', hblanks, hblanks', heq, heq', ht⟩,
      fun hfalse => absurd hfalse (by decide)⟩

/-- Nothing is read from either text, or something from both, and behind it
    they are alike. -/
inductive ReadAlike (spacing : Spacing) : (found found' : Option (Text × Text)) → Prop where
  | none : ReadAlike spacing none none
  | some {read rest read' rest' : Text} (hrest : Resumes spacing rest rest') :
      ReadAlike spacing (some (read, rest)) (some (read', rest'))

theorem comment?_eq_none_of_after? (hline : Text.after? ['/', '/'] t = none)
    (hblock : Text.after? ['/', '*'] t = none) : comment? t = none := by
  unfold comment?
  split
  · next u =>
    rw [Text.after?_eq_none_iff] at hline
    exact absurd ⟨u, rfl⟩ hline
  · next u =>
    rw [Text.after?_eq_none_iff] at hblock
    exact absurd ⟨u, rfl⟩ hblock
  · rfl

/-- A comment begins both texts or neither, and behind it they are alike. -/
theorem Respaced.comment? (h : Respaced spacing escaped t t') :
    ReadAlike spacing (Lexical.comment? t) (Lexical.comment? t') := by
  have hline : ∀ c ∈ ['/', '/'], isBlank c = false := by decide
  have hblock : ∀ c ∈ ['/', '*'], isBlank c = false := by decide
  have hclose : ∀ c ∈ ['*', '/'], isBlank c = false := by decide
  rcases h.after? hline with ⟨u, u', h₁, h₁', hu⟩ | ⟨h₁, h₁'⟩
  · rw [Text.eq_append_of_after? h₁, Text.eq_append_of_after? h₁']
    exact .some hu.throughLine
  · rcases h.after? hblock with ⟨u, u', h₂, h₂', hu⟩ | ⟨h₂, h₂'⟩
    · rw [Text.eq_append_of_after? h₂, Text.eq_append_of_after? h₂']
      exact .some (hu.through hclose).resumes
    · rw [comment?_eq_none_of_after? h₁ h₂, comment?_eq_none_of_after? h₁' h₂']
      exact .none

/-- Behind a string of any kind the texts are alike. Its quotes have no white
    space between them, so both texts have the same number. -/
theorem Respaced.stringBody (h : Respaced spacing escaped t t') (verbatim : Bool) :
    Resumes spacing (Lexical.stringBody verbatim t).2 (Lexical.stringBody verbatim t').2 := by
  have hquote : isBlank '"' = false := by decide
  cases verbatim with
  | true => exact h.throughVerbatim.1.resumes
  | false =>
    have hp : ∀ c, isBlank c = true → decide (c = '"') = false := by
      intro c hc
      rw [decide_eq_false_iff_not]
      rintro rfl
      exact absurd hc (by decide)
    obtain ⟨hmore, hrest⟩ := h.run hp
    by_cases hshort : (t.takeWhile (· = '"')).length < 2
    · simp only [Lexical.stringBody, Bool.false_eq_true, if_false, ← hmore, hshort, if_true]
      exact (h.throughQuote hquote).1
    · simp only [Lexical.stringBody, Bool.false_eq_true, if_false, ← hmore, hshort]
      have hfence : ∀ c ∈ '"' :: t.takeWhile (· = '"'), isBlank c = false := by
        intro c hc
        rcases List.mem_cons.1 hc with rfl | hc
        · exact hquote
        · rw [of_decide_eq_true (List.all_eq_true.1 List.all_takeWhile c hc)]
          exact hquote
      exact (hrest.through hfence).resumes

theorem literal?_eq_none_of_after? (hquote : Text.after? ['"'] (t.dropWhile isStringMark) = none)
    (happ : Text.after? ['\''] t = none) : literal? t = none := by
  cases t with
  | nil => rfl
  | cons c t =>
    rw [Text.after?_eq_none_iff, List.singleton_prefix_cons_iff] at happ
    rw [Text.after?_eq_none_iff] at hquote
    refine literal?_eq_none_iff.2 ⟨⟨?_, Ne.symm happ⟩, fun hmark hhead => ?_⟩
    · rintro rfl
      exact hquote ⟨t, rfl⟩
    · obtain ⟨u, hu⟩ := List.head?_eq_some_iff.1 hhead
      rw [List.dropWhile_cons_of_pos hmark, hu] at hquote
      exact hquote ⟨u, rfl⟩

theorem literal?_character (t : Text) :
    literal? ('\'' :: t) = some ('\'' :: (throughQuote '\'' t).1, (throughQuote '\'' t).2) := by
  simp [literal?, isStringMark]

/-- A literal begins both texts or neither, and behind it they are alike. -/
theorem Respaced.literal? (h : Respaced spacing escaped t t') :
    ReadAlike spacing (Lexical.literal? t) (Lexical.literal? t') := by
  have hp : ∀ c, isBlank c = true → isStringMark c = false := by
    intro c hc
    exact isStringMark_of_isInert (isInert_of (by decide) hc)
  have hquote : ∀ c ∈ ['"'], isBlank c = false := by decide
  have happ : ∀ c ∈ ['\''], isBlank c = false := by decide
  obtain ⟨hmarks, hbehind⟩ := h.run hp
  rcases hbehind.after? hquote with ⟨u, u', h₁, h₁', hu⟩ | ⟨h₁, h₁'⟩
  · have hall : ∀ c ∈ t.takeWhile isStringMark, isStringMark c = true :=
      List.all_eq_true.1 List.all_takeWhile
    have ht : t = t.takeWhile isStringMark ++ '"' :: u := by
      rw [← List.singleton_append, ← Text.eq_append_of_after? h₁, List.takeWhile_append_dropWhile]
    have ht' : t' = t.takeWhile isStringMark ++ '"' :: u' := by
      rw [hmarks, ← List.singleton_append, ← Text.eq_append_of_after? h₁',
        List.takeWhile_append_dropWhile]
    generalize t.takeWhile isStringMark = marks at hall ht ht'
    rw [ht, ht', literal?_marks hall, literal?_marks hall]
    exact .some (hu.stringBody _)
  · rcases h.after? happ with ⟨u, u', h₂, h₂', hu⟩ | ⟨h₂, h₂'⟩
    · rw [Text.eq_append_of_after? h₂, Text.eq_append_of_after? h₂', List.singleton_append,
        List.singleton_append, literal?_character, literal?_character]
      exact .some (hu.throughQuote (by decide)).1
    · rw [literal?_eq_none_of_after? h₁ h₂, literal?_eq_none_of_after? h₁' h₂']
      exact .none

/-- Where two texts go on with the same character, that is code in both, or
    both have a comment or a literal there. What these hold may differ in its
    line gaps. -/
theorem Respaced.next? {c : Char} (hc : c ≠ '\n') (ht : Respaced spacing (c = '\\') t t') :
    (Segment.next? (c :: t) = some (.code c, t) ∧ Segment.next? (c :: t') = some (.code c, t')) ∨
      ∃ segment segment' rest rest', Segment.next? (c :: t) = some (segment, rest) ∧
        Segment.next? (c :: t') = some (segment', rest') ∧
          (∀ d, segment ≠ .code d ∧ segment' ≠ .code d) ∧
        Resumes spacing rest rest' := by
  have h : Respaced spacing false (c :: t) (c :: t') := .char hc ht
  have hcomment := h.comment?
  have hliteral := h.literal?
  rw [Segment.next?, Segment.next?]
  generalize Lexical.comment? (c :: t) = comment at hcomment
  generalize Lexical.comment? (c :: t') = comment' at hcomment
  generalize Lexical.literal? (c :: t) = literal at hliteral
  generalize Lexical.literal? (c :: t') = literal' at hliteral
  cases hcomment with
  | some hrest => exact Or.inr ⟨_, _, _, _, rfl, rfl, fun d => ⟨by simp, by simp⟩, hrest⟩
  | none =>
    cases hliteral with
    | some hrest => exact Or.inr ⟨_, _, _, _, rfl, rfl, fun d => ⟨by simp, by simp⟩, hrest⟩
    | none => exact Or.inl ⟨rfl, rfl⟩

end

section

variable {spacing : Spacing} {escaped : Bool} {opener closer : Char} {depth : Nat}
  {t t' inside rest : Text}

/-- White space is gone over in the search for a closer, as no delimiter is
    white space. -/
theorem closesAfter_blanks_iff (hopener : isBlank opener = false) (hcloser : isBlank closer = false)
    {blanks : Text} (hblanks : ∀ c ∈ blanks, isBlank c = true) :
    ClosesAfter opener closer depth (blanks ++ t) inside rest ↔
      ∃ inner, inside = blanks ++ inner ∧ ClosesAfter opener closer depth t inner rest := by
  induction blanks generalizing inside with
  | nil => simp
  | cons c blanks ih =>
    have hc := hblanks c List.mem_cons_self
    have hnext := next?_inert (isInert_of (by decide) hc) (blanks ++ t)
    have hne {d : Char} (hd : isBlank d = false) : Segment.code c ≠ .code d := by
      rintro heq
      rw [Segment.code.injEq] at heq
      rw [← heq, hc] at hd
      exact absurd hd (by decide)
    rw [List.cons_append, closesAfter_iff_of_next? hnext (fun heq => absurd heq (hne hcloser))
      fun segments => Balanced.cons_other_iff (hne hopener) (hne hcloser)]
    simp only [ih fun d hd => hblanks d (List.mem_cons_of_mem c hd)]
    constructor
    · rintro ⟨_, rfl, inner, rfl, hcloses⟩
      exact ⟨inner, rfl, hcloses⟩
    · rintro ⟨inner, rfl, hcloses⟩
      exact ⟨_, rfl, inner, rfl, hcloses⟩

/-- What closes a delimiter in a text closes it in the other one, and what is
    behind is the same but for its line gaps. The induction is on the length of
    the text, because a gap goes by as a whole. -/
theorem Respaced.exists_closesAfter (hne : opener ≠ closer) (hopener : isBlank opener = false)
    (hcloser : isBlank closer = false) (h : Respaced spacing escaped t t')
    (hcloses : ClosesAfter opener closer depth t inside rest) :
    ∃ inside' rest', ClosesAfter opener closer depth t' inside' rest' ∧
      Respaced spacing false rest rest' := by
  induction hlength :
    t.length using Nat.strong_induction_on generalizing escaped depth t t' inside with
  | h length ih =>
    -- Behind white space, in either text, the search goes on in the rest.
    have hresumes {depth : Nat} {u u' inner : Text} (hu : Resumes spacing u u')
        (hlt : u.length < length) (hinner : ClosesAfter opener closer depth u inner rest) :
        ∃ inside' rest', ClosesAfter opener closer depth u' inside' rest' ∧
          Respaced spacing false rest rest' := by
      obtain ⟨blanks, blanks', v, v', hblanks, hblanks', rfl, rfl, hv⟩ := hu
      obtain ⟨inner, -, hinner⟩ := (closesAfter_blanks_iff hopener hcloser hblanks).1 hinner
      rw [List.length_append] at hlt
      obtain ⟨inside', rest', hcloses', hrest⟩ := ih v.length (by omega) hv hinner rfl
      exact ⟨_, rest', (closesAfter_blanks_iff hopener hcloser hblanks').2 ⟨inside', rfl, hcloses'⟩,
        hrest⟩
    cases h with
    | nil => exact absurd hcloses (not_closesAfter rfl)
    | @gap gap gap' t t' hgap ht =>
      obtain ⟨hline, hline'⟩ := spacing.isLineGap hgap
      obtain ⟨inner, -, hinner⟩ := (closesAfter_blanks_iff hopener hcloser hline.isBlank).1 hcloses
      obtain ⟨c, more, rfl, -⟩ := hline.exists_cons
      rw [List.length_append, List.length_cons] at hlength
      obtain ⟨inside', rest', hcloses', hrest⟩ := ih t.length (by omega) ht hinner rfl
      exact ⟨_, rest',
        (closesAfter_blanks_iff hopener hcloser hline'.isBlank).2 ⟨inside', rfl, hcloses'⟩, hrest⟩
    | @char _ c t t' hc ht =>
      rw [List.length_cons] at hlength
      rcases Respaced.next? hc ht with
        ⟨hnext, hnext'⟩ | ⟨segment, segment', u, u', hnext, hnext', hcode, hu⟩
      · -- The step is the same in both texts.
        have hstep {deeper : Nat} (hnot : Segment.code c = .code closer → depth ≠ 0)
            (hsame : ∀ segments, Balanced opener closer depth (.code c :: segments) ↔
              Balanced opener closer deeper segments) :
            ∃ inside' rest', ClosesAfter opener closer depth (c :: t') inside' rest' ∧
              Respaced spacing false rest rest' := by
          obtain ⟨inner, -, hinner⟩ := (closesAfter_iff_of_next? hnext hnot hsame).1 hcloses
          obtain ⟨inside', rest', hcloses', hrest⟩ := ih t.length (by omega) ht hinner rfl
          exact ⟨_, rest', (closesAfter_iff_of_next? hnext' hnot hsame).2 ⟨inside', rfl, hcloses'⟩,
            hrest⟩
        by_cases hopens : c = opener
        · subst hopens
          exact hstep (by simp [hne]) fun segments => Balanced.cons_opener_iff hne
        · by_cases hends : c = closer
          · subst hends
            cases depth with
            | zero =>
              obtain ⟨-, rfl⟩ := (closesAfter_iff_of_closer hne hnext).1 hcloses
              exact ⟨[], t', (closesAfter_iff_of_closer hne hnext').2 ⟨rfl, rfl⟩, ht.unescape⟩
            | succ depth => exact hstep (by simp) fun segments => Balanced.cons_closer_iff hne
          · exact hstep (by simp [hends]) fun segments =>
              Balanced.cons_other_iff (by simp [hopens]) (by simp [hends])
      · have hother {segment : Segment} (hcode : ∀ d, segment ≠ .code d) (segments : List Segment) :
            Balanced opener closer depth (segment :: segments) ↔
              Balanced opener closer depth segments :=
          Balanced.cons_other_iff (hcode opener) (hcode closer)
        have hlt := Segment.length_lt_of_next? hnext
        obtain ⟨inner, -, hinner⟩ :=
          (closesAfter_iff_of_next? hnext (fun heq => absurd heq ((hcode closer).1))
            (hother fun d => (hcode d).1)).1 hcloses
        obtain ⟨inside', rest', hcloses', hrest⟩ :=
          hresumes hu (by rw [List.length_cons] at hlt; omega) hinner
        exact ⟨_, rest', (closesAfter_iff_of_next? hnext' (fun heq => absurd heq ((hcode closer).2))
          (hother fun d => (hcode d).2)).2 ⟨inside', rfl, hcloses'⟩, hrest⟩

end

end Lexical

end EntitySplit
