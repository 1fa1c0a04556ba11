import EntitySplit.Lexical.Segment
import EntitySplit.Proofs.Lexical.Token

namespace EntitySplit

namespace Lexical

/-- The rest of a literal behind its first quote: through the quote that closes
    it, or up to the line feed that cuts it short. A backslash takes the next
    character with it, be it a quote or a line feed. -/
inductive QuotedTail (quote : Char) : (closed : Bool) → Text → Prop where
  | close : QuotedTail quote true [quote]
  | cut : QuotedTail quote false []
  | escape {closed : Bool} {t : Text} (c : Char) (ht : QuotedTail quote closed t) :
      QuotedTail quote closed ('\\' :: c :: t)
  | plain {closed : Bool} {c : Char} {t : Text} (hescape : c ≠ '\\') (hquote : c ≠ quote)
      (hfeed : c ≠ '\n') (ht : QuotedTail quote closed t) : QuotedTail quote closed (c :: t)

/-- The rest of a verbatim string behind its first quote, in which two quotes
    stand for one. Line feeds may stand in it. -/
inductive VerbatimTail : Text → Prop where
  | close : VerbatimTail ['"']
  | escape {t : Text} (ht : VerbatimTail t) : VerbatimTail ('"' :: '"' :: t)
  | plain {c : Char} {t : Text} (hquote : c ≠ '"') (ht : VerbatimTail t) : VerbatimTail (c :: t)

/-- The text begins with a line feed or is at its end. -/
def AtLineEnd (t : Text) : Prop :=
  ∀ c ∈ t.head?, c = '\n'

section

variable {quote : Char} {closed : Bool} {t body rest : Text}

/-- The rest of a literal is read as it is written. One that is cut short must
    stand at the end of its line. -/
theorem throughQuote_append_tail (hquote : quote ≠ '\\') (hbody : QuotedTail quote closed body)
    (hcut : closed = false → quote ≠ '\n' ∧ AtLineEnd rest) :
    throughQuote quote (body ++ rest) = (body, rest) := by
  induction hbody with
  | close => cases rest <;> simp [throughQuote, hquote]
  | cut =>
    obtain ⟨hfeed, hend⟩ := hcut rfl
    cases rest with
    | nil => rfl
    | cons c rest =>
      obtain rfl : c = '\n' := hend c rfl
      simp [throughQuote, hfeed.symm]
  | escape c ht ih => simp [throughQuote, ih hcut]
  | plain hescape hquote hfeed ht ih => simp [throughQuote, hescape, hquote, hfeed, ih hcut]

/-- What is read as the rest of a literal is written as one, if something
    follows. At the end of the text a backslash may stand last, which is no
    rest of a literal. -/
theorem exists_quotedTail (h : throughQuote quote t = (body, rest)) (hrest : rest ≠ []) :
    ∃ closed, QuotedTail quote closed body ∧ (closed = false → quote ≠ '\n' ∧ AtLineEnd rest) := by
  fun_induction throughQuote quote t generalizing body with
  | case1 => simp_all
  | case2 => simp_all
  | case3 c t ih =>
    obtain ⟨rfl, rfl⟩ := Prod.mk.inj h
    obtain ⟨closed, hbody, hcut⟩ := ih rfl
    exact ⟨closed, .escape c hbody, hcut⟩
  | case4 =>
    obtain ⟨rfl, rfl⟩ := Prod.mk.inj h
    exact ⟨true, .close, by simp⟩
  | case5 t _ _ hquote =>
    obtain ⟨rfl, rfl⟩ := Prod.mk.inj h
    exact ⟨false, .cut, fun _ => ⟨Ne.symm hquote, by simp [AtLineEnd]⟩⟩
  | case6 c t hlast hpair hquote hfeed ih =>
    obtain ⟨rfl, rfl⟩ := Prod.mk.inj h
    obtain ⟨closed, hbody, hcut⟩ := ih rfl
    have hescape : c ≠ '\\' := by
      intro heq
      cases t with
      | nil => exact hlast heq rfl
      | cons d t => exact hpair d t heq rfl
    exact ⟨closed, .plain hescape hquote hfeed hbody, hcut⟩

/-- The rest of a verbatim string is read as it is written, if no further quote
    follows, which would make one of two. -/
theorem throughVerbatim_append_tail (hbody : VerbatimTail body) (hrest : rest.head? ≠ some '"') :
    throughVerbatim (body ++ rest) = (body, rest) := by
  induction hbody with
  | close =>
    cases rest with
    | nil => rfl
    | cons c rest => simp_all [throughVerbatim]
  | escape ht ih => simp [throughVerbatim, ih]
  | plain hquote ht ih => simp [throughVerbatim, hquote, ih]

/-- What is read as the rest of a verbatim string is written as one, if
    something follows. -/
theorem verbatimTail_of_throughVerbatim (h : throughVerbatim t = (body, rest)) (hrest : rest ≠ []) :
    VerbatimTail body ∧ rest.head? ≠ some '"' := by
  fun_induction throughVerbatim t generalizing body with
  | case1 => simp_all
  | case2 t ih =>
    obtain ⟨rfl, rfl⟩ := Prod.mk.inj h
    obtain ⟨hbody, hhead⟩ := ih rfl
    exact ⟨.escape hbody, hhead⟩
  | case3 t hpair =>
    obtain ⟨rfl, rfl⟩ := Prod.mk.inj h
    refine ⟨.close, ?_⟩
    intro hhead
    obtain ⟨rest, rfl⟩ := List.head?_eq_some_iff.1 hhead
    exact hpair rest rfl rfl
  | case4 c t hpair hquote ih =>
    obtain ⟨rfl, rfl⟩ := Prod.mk.inj h
    obtain ⟨hbody, hhead⟩ := ih rfl
    exact ⟨.plain hquote hbody, hhead⟩

end

/-- A segment as written, with `rest` behind it. What follows matters only to a
    character of code that could begin a comment or a string, to a string that
    one more quote would go on with or turn into a raw one, and to a literal
    that a line feed cuts short. -/
inductive Segment.FollowedBy : (segment : Segment) → (rest : Text) → Prop where
  | code {c : Char} {rest : Text} (hquote : c ≠ '"' ∧ c ≠ '\'')
      (hcomment : c = '/' → rest.head? ≠ some '/' ∧ rest.head? ≠ some '*')
      (hmarks : isStringMark c = true → (rest.dropWhile isStringMark).head? ≠ some '"') :
      FollowedBy (.code c) rest
  | lineComment {body rest : Text} (hbody : '\n' ∉ body) :
      FollowedBy (.comment ('/' :: '/' :: (body ++ ['\n']))) rest
  | blockComment {body rest : Text} (hbody : ¬['*', '/'] <:+: body) :
      FollowedBy (.comment ('/' :: '*' :: (body ++ ['*', '/']))) rest
  | verbatim {marks body rest : Text} (hmarks : ∀ c ∈ marks, isStringMark c = true)
      (hat : '@' ∈ marks) (hbody : VerbatimTail body) (hrest : rest.head? ≠ some '"') :
      FollowedBy (.literal (marks ++ '"' :: body)) rest
  | ordinary {marks body rest : Text} {closed : Bool} (hmarks : ∀ c ∈ marks, isStringMark c = true)
      (hat : '@' ∉ marks) (hbody : QuotedTail '"' closed body)
      (hempty : body = ['"'] → rest.head? ≠ some '"') (hcut : closed = false → AtLineEnd rest) :
      FollowedBy (.literal (marks ++ '"' :: body)) rest
  | raw {marks fence body rest : Text} (hmarks : ∀ c ∈ marks, isStringMark c = true)
      (hat : '@' ∉ marks) (hfence : ∀ c ∈ fence, c = '"') (hlength : 3 ≤ fence.length)
      (hhead : ∀ c ∈ (body ++ fence).head?, c ≠ '"') (hbody : ¬fence <:+: body ++ fence.dropLast) :
      FollowedBy (.literal (marks ++ (fence ++ (body ++ fence)))) rest
  | character {body rest : Text} {closed : Bool} (hbody : QuotedTail '\'' closed body)
      (hcut : closed = false → AtLineEnd rest) : FollowedBy (.literal ('\'' :: body)) rest

section

variable {c : Char} {t comment literal body marks rest : Text} {segment : Segment} {closed : Bool}

/-- No comment is read exactly where none begins; for a slash this hangs on the
    next character. -/
theorem comment?_eq_none_iff :
    comment? (c :: rest) = none ↔ (c = '/' → rest.head? ≠ some '/' ∧ rest.head? ≠ some '*') := by
  unfold comment?
  cases rest with
  | nil => simp
  | cons d rest => split <;> simp_all

/-- No literal is read exactly where neither a quote stands nor marks with a
    quote behind them. -/
theorem literal?_eq_none_iff : literal? (c :: rest) = none ↔
    (c ≠ '"' ∧ c ≠ '\'') ∧
      (isStringMark c = true → (rest.dropWhile isStringMark).head? ≠ some '"') := by
  unfold literal?
  by_cases hc : isStringMark c = true
  · have hquote : c ≠ '"' ∧ c ≠ '\'' := by
      constructor <;> rintro rfl <;> exact absurd hc (by decide)
    rw [List.takeWhile_cons_of_pos hc, List.dropWhile_cons_of_pos hc]
    split <;> simp_all [List.head?_eq_some_iff]
  · rw [List.takeWhile_cons_of_neg hc, List.dropWhile_cons_of_neg hc]
    split <;> simp_all

/-- A string is read with the marks in front of it, and whether one of them is
    `@` tells how its body is read. -/
theorem literal?_marks (hmarks : ∀ c ∈ marks, isStringMark c = true) (t : Text) :
    literal? (marks ++ '"' :: t) =
      some (marks ++ '"' :: (stringBody (decide ('@' ∈ marks)) t).1,
        (stringBody (decide ('@' ∈ marks)) t).2) := by
  have hstop : ∀ c ∈ List.head? ('"' :: t), isStringMark c = false := by simp [isStringMark]
  rw [literal?, Text.takeWhile_run_append hmarks hstop, Text.dropWhile_run_append hmarks hstop,
    List.contains_eq_mem]
  rfl

theorem comment?_eq_none_of_literal? (h : literal? t = some (literal, rest)) :
    comment? t = none := by
  cases t with
  | nil => rfl
  | cons c t =>
    rw [comment?_eq_none_iff]
    rintro rfl
    have hnone : literal? ('/' :: t) = none := literal?_eq_none_iff.2 (by simp [isStringMark])
    rw [hnone] at h
    exact absurd h (by simp)

theorem next?_of_comment? (h : comment? t = some (comment, rest)) :
    Segment.next? t = some (.comment comment, rest) := by
  cases t with
  | nil => simp [comment?] at h
  | cons c t => rw [Segment.next?, h]

theorem next?_of_literal? (h : literal? t = some (literal, rest)) :
    Segment.next? t = some (.literal literal, rest) := by
  cases t with
  | nil => simp [literal?] at h
  | cons c t => rw [Segment.next?, comment?_eq_none_of_literal? h, h]

/-- The body of an ordinary string is read as it is written. An empty one must
    not be followed by a quote, as three quotes begin a raw string. -/
theorem stringBody_ordinary (hbody : QuotedTail '"' closed body)
    (hempty : body = ['"'] → rest.head? ≠ some '"')
    (hcut : closed = false → AtLineEnd rest) : stringBody false (body ++ rest) = (body, rest) := by
  have hrest (hhead : rest.head? ≠ some '"') : rest.takeWhile (· = '"') = [] := by
    cases rest with
    | nil => rfl
    | cons c rest => simp_all
  have hshort : ((body ++ rest).takeWhile (· = '"')).length < 2 := by
    cases hbody with
    | close => simp [hrest (hempty rfl)]
    | cut =>
      have hhead : rest.head? ≠ some '"' := fun hhead => absurd (hcut rfl '"' hhead) (by decide)
      simp [hrest hhead]
    | escape c ht => simp
    | plain hescape hquote hfeed ht => simp [hquote]
  rw [stringBody, if_neg (by decide)]
  simp only [hshort, if_true]
  exact throughQuote_append_tail (by decide) hbody fun h => ⟨by decide, hcut h⟩

/-- The body of a raw string is read as it is written: it holds no run of
    quotes as long as its fence, and does not begin with a quote. -/
theorem stringBody_raw {more : Text} (hmore : ∀ c ∈ more, c = '"') (hlength : 2 ≤ more.length)
    (hhead : ∀ c ∈ (body ++ '"' :: more).head?, c ≠ '"')
    (hbody : ¬('"' :: more) <:+: body ++ ('"' :: more).dropLast) :
    stringBody false (more ++ (body ++ '"' :: more) ++ rest) =
      (more ++ (body ++ '"' :: more), rest) := by
  have hrun : ∀ c ∈ more, decide (c = '"') = true := fun c hc => decide_eq_true (hmore c hc)
  have hstop : ∀ c ∈ (body ++ '"' :: more ++ rest).head?, decide (c = '"') = false := by
    intro c hc
    apply decide_eq_false (hhead c _)
    rwa [List.head?_append_of_ne_nil _ (by simp)] at hc
  have hthrough :
    Text.through ('"' :: more) (body ++ '"' :: more ++ rest) = (body ++ '"' :: more, rest) := by
    rw [List.append_assoc]
    exact Text.through_append_mark (by simp) hbody
  rw [stringBody, if_neg (by decide), List.append_assoc, Text.takeWhile_run_append hrun hstop,
    Text.dropWhile_run_append hrun hstop]
  simp only [Nat.not_lt.2 hlength, if_false, hthrough]

/-- A segment is read as it is written. This holds at the end of the text as
    well, where also what nothing closes is read. -/
theorem next?_append_of_followedBy (h : segment.FollowedBy rest) :
    Segment.next? (segment.text ++ rest) = some (segment, rest) := by
  cases h with
  | code hquote hcomment hmarks =>
    rw [Segment.text, List.singleton_append, Segment.next?, comment?_eq_none_iff.2 hcomment,
      literal?_eq_none_iff.2 ⟨hquote, hmarks⟩]
  | @lineComment body _ hbody =>
    apply next?_of_comment?
    rw [← comment?_line hbody rest]
    simp [Segment.text]
  | @blockComment body _ hbody =>
    apply next?_of_comment?
    rw [← comment?_block hbody rest]
    simp [Segment.text]
  | @verbatim marks body _ hmarks hat hbody hrest =>
    apply next?_of_literal?
    rw [Segment.text, List.append_assoc, List.cons_append, literal?_marks hmarks,
      decide_eq_true hat, stringBody, if_pos rfl, throughVerbatim_append_tail hbody hrest]
  | @ordinary marks body _ closed hmarks hat hbody hempty hcut =>
    apply next?_of_literal?
    rw [Segment.text, List.append_assoc, List.cons_append, literal?_marks hmarks,
      decide_eq_false hat, stringBody_ordinary hbody hempty hcut]
  | @raw marks fence body _ hmarks hat hfence hlength hhead hbody =>
    apply next?_of_literal?
    obtain ⟨c, more, rfl⟩ := List.exists_cons_of_length_pos (Nat.lt_of_lt_of_le (by decide) hlength)
    obtain rfl := hfence c List.mem_cons_self
    have hmore : ∀ c ∈ more, c = '"' := fun c hc => hfence c (List.mem_cons_of_mem _ hc)
    have hstring :
      stringBody false (more ++ (body ++ '"' :: more) ++ rest) =
        (more ++ (body ++ '"' :: more), rest) :=
      stringBody_raw hmore (Nat.le_of_succ_le_succ hlength) hhead hbody
    rw [Segment.text, List.append_assoc, List.cons_append, List.cons_append, literal?_marks hmarks,
      decide_eq_false hat, hstring]
  | @character body _ closed hbody hcut =>
    apply next?_of_literal?
    have hthrough : throughQuote '\'' (body ++ rest) = (body, rest) :=
      throughQuote_append_tail (by decide) hbody fun h => ⟨by decide, hcut h⟩
    simp [Segment.text, literal?, isStringMark, hthrough]

/-- A comment that is read with something behind it is written as one. -/
theorem followedBy_of_comment? (h : comment? t = some (comment, rest)) (hrest : rest ≠ []) :
    (Segment.comment comment).FollowedBy rest := by
  unfold comment? at h
  split at h
  · simp only [Option.some.injEq, Prod.mk.injEq] at h
    obtain ⟨rfl, rfl⟩ := h
    obtain ⟨before, hbefore, hfirst⟩ := Text.exists_of_through (by simp) rfl hrest
    rw [hbefore]
    exact .lineComment (first_feed_iff.1 hfirst)
  · simp only [Option.some.injEq, Prod.mk.injEq] at h
    obtain ⟨rfl, rfl⟩ := h
    obtain ⟨before, hbefore, hfirst⟩ := Text.exists_of_through (by simp) rfl hrest
    rw [hbefore]
    exact .blockComment (first_close_iff.1 hfirst)
  · exact absurd h (by simp)

/-- A string that is read with something behind it is written as one of the
    three kinds, which its marks and its quotes tell. -/
theorem followedBy_of_stringBody (hmarks : ∀ c ∈ marks, isStringMark c = true)
    (h : stringBody (decide ('@' ∈ marks)) t = (body, rest)) (hrest : rest ≠ []) :
    (Segment.literal (marks ++ '"' :: body)).FollowedBy rest := by
  by_cases hat : '@' ∈ marks
  · rw [decide_eq_true hat, stringBody, if_pos rfl] at h
    obtain ⟨hbody, hhead⟩ := verbatimTail_of_throughVerbatim h hrest
    exact .verbatim hmarks hat hbody hhead
  · obtain ⟨more, u, rfl, hmore, hstop⟩ := Text.exists_run (· = '"') t
    rw [decide_eq_false hat, stringBody, if_neg (by decide), Text.takeWhile_run_append hmore hstop,
      Text.dropWhile_run_append hmore hstop] at h
    dsimp only at h
    have hquotes : ∀ c ∈ more, c = '"' := fun c hc => of_decide_eq_true (hmore c hc)
    split at h
    · next hshort =>
      obtain ⟨closed, hbody, hcut⟩ := exists_quotedTail h hrest
      refine .ordinary hmarks hat hbody ?_ fun hclosed => (hcut hclosed).2
      rintro rfl hhead
      -- Two quotes and a third one behind them would have been the marks of a raw string.
      obtain ⟨rest, rfl⟩ := List.head?_eq_some_iff.1 hhead
      have hrun := Text.takeWhile_run_append hmore hstop
      have htext := throughQuote_append '"' (more ++ u)
      rw [h] at htext
      rw [← htext] at hrun
      rw [← hrun] at hshort
      simp only [List.cons_append, List.nil_append, decide_true, List.takeWhile_cons_of_pos,
        List.length_cons] at hshort
      omega
    · next hlong =>
      obtain ⟨rfl, rfl⟩ := Prod.mk.inj h
      obtain ⟨before, hbefore, hfirst⟩ := Text.exists_of_through (by simp) rfl hrest
      have hhead : ∀ c ∈ (before ++ '"' :: more).head?, c ≠ '"' := by
        intro c hc
        apply of_decide_eq_false (hstop c _)
        rwa [← Text.through_append ('"' :: more) u, hbefore,
          List.head?_append_of_ne_nil _ (by simp)]
      have hfence : ∀ c ∈ '"' :: more, c = '"' := by simpa using hquotes
      rw [hbefore]
      exact .raw hmarks hat hfence (Nat.succ_le_succ (Nat.not_lt.1 hlong)) hhead hfirst

/-- A literal that is read with something behind it is written as one. -/
theorem followedBy_of_literal? (h : literal? t = some (literal, rest)) (hrest : rest ≠ []) :
    (Segment.literal literal).FollowedBy rest := by
  obtain ⟨marks, u, rfl, hmarks, hstop⟩ := Text.exists_run isStringMark t
  rw [literal?, Text.takeWhile_run_append hmarks hstop, Text.dropWhile_run_append hmarks hstop] at h
  dsimp only at h
  split at h
  · rw [List.contains_eq_mem] at h
    obtain ⟨rfl, rfl⟩ := Prod.mk.inj (Option.some.inj h)
    exact followedBy_of_stringBody hmarks rfl hrest
  · split at h
    · obtain ⟨rfl, rfl⟩ := Prod.mk.inj (Option.some.inj h)
      obtain ⟨closed, hbody, hcut⟩ := exists_quotedTail rfl hrest
      exact .character hbody fun hclosed => (hcut hclosed).2
    · exact absurd h (by simp)
  · exact absurd h (by simp)

/-- A segment with something behind it is read exactly where it is written so.
    The two directions are used throughout in place of the reading itself. -/
theorem next?_eq_some_iff (hrest : rest ≠ []) :
    Segment.next? t = some (segment, rest) ↔ t = segment.text ++ rest ∧
      segment.FollowedBy rest := by
  constructor
  · intro h
    refine ⟨(Segment.eq_append_of_next? h).1, ?_⟩
    unfold Segment.next? at h
    split at h
    · exact absurd h (by simp)
    · split at h
      · next hcomment =>
        obtain ⟨rfl, rfl⟩ := Prod.mk.inj (Option.some.inj h)
        exact followedBy_of_comment? hcomment hrest
      · next hcomment =>
        split at h
        · next hliteral =>
          obtain ⟨rfl, rfl⟩ := Prod.mk.inj (Option.some.inj h)
          exact followedBy_of_literal? hliteral hrest
        · next hliteral =>
          obtain ⟨rfl, rfl⟩ := Prod.mk.inj (Option.some.inj h)
          obtain ⟨hquote, hmarks⟩ := literal?_eq_none_iff.1 hliteral
          exact .code hquote (comment?_eq_none_iff.1 hcomment) hmarks
  · rintro ⟨rfl, h⟩
    exact next?_append_of_followedBy h

end

end Lexical

end EntitySplit
