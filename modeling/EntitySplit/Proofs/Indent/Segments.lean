import EntitySplit.Proofs.Indent.Continued
import EntitySplit.Proofs.Lexical.Boundary

namespace EntitySplit

namespace Lexical

open Text (isBlank)

/-- A text that ends with the first `mark` in it, as a comment or a raw string
    ends with its closing mark. -/
inductive MarkTail (mark : Text) : Text → Prop where
  | close : MarkTail mark mark
  | plain {c : Char} {t : Text} (hnot : ¬mark <+: c :: t) (ht : MarkTail mark t) :
      MarkTail mark (c :: t)

/-- Read as a whole: the mark stands at the end and nowhere earlier. -/
theorem markTail_iff {mark t : Text} (hne : mark ≠ []) :
    MarkTail mark t ↔ ∃ body, t = body ++ mark ∧ ¬mark <:+: body ++ mark.dropLast := by
  have hwhole (body : Text) : body ++ mark.dropLast <+: body ++ mark :=
    (List.prefix_append_right_inj body).2 (List.dropLast_prefix mark)
  constructor
  · intro h
    induction h with
    | close =>
      refine ⟨[], rfl, fun hinfix => ?_⟩
      have hlength := hinfix.length_le
      have hpositive := List.length_pos_iff.2 hne
      rw [List.nil_append, List.length_dropLast] at hlength
      omega
    | @plain c t hnot _ ih =>
      obtain ⟨body, rfl, hbody⟩ := ih
      refine ⟨c :: body, rfl, fun hinfix => ?_⟩
      rcases List.infix_cons_iff.1 hinfix with hfront | hlater
      · exact hnot (hfront.trans (hwhole (c :: body)))
      · exact hbody hlater
  · rintro ⟨body, rfl, hbody⟩
    induction body with
    | nil => exact .close
    | cons c body ih =>
      refine .plain (fun hfront => ?_)
        (ih fun hinfix => hbody (List.infix_cons_iff.2 (Or.inr hinfix)))
      have hlength : mark.length ≤ (c :: body ++ mark.dropLast).length := by
        simp only [List.length_cons, List.length_append, List.length_dropLast]
        omega
      exact hbody (List.prefix_of_prefix_length_le hfront (hwhole (c :: body)) hlength).isInfix

end Lexical

namespace Indent

open Lexical
open Text (isBlank isIndent)

section

variable {oldIndent newIndent mark body : Text} {quote : Char} {closed : Bool}

theorem ne_of_isIndent {c d : Char} (hc : isIndent c = true) (hd : isIndent d = false) : c ≠ d := by
  rintro rfl
  rw [hc] at hd
  exact absurd hd (by decide)

/-- A character that is no mark of a quoted literal may stand in front of its
    rest. -/
theorem quotedTail_cons_iff {c : Char} {t : Text} (hescape : c ≠ '\\') (hquote : c ≠ quote)
    (hfeed : c ≠ '\n') :
    QuotedTail quote closed (c :: t) ↔ QuotedTail quote closed t := by
  constructor
  · intro h
    cases h with
    | close => exact absurd rfl hquote
    | escape => exact absurd rfl hescape
    | plain _ _ _ ht => exact ht
  · exact .plain hescape hquote hfeed

/-- So may one that is no quotation mark, for a verbatim string. -/
theorem verbatimTail_cons_iff {c : Char} {t : Text} (hquote : c ≠ '"') :
    VerbatimTail (c :: t) ↔ VerbatimTail t := by
  constructor
  · intro h
    cases h with
    | close => exact absurd rfl hquote
    | escape => exact absurd rfl hquote
    | plain _ ht => exact ht
  · exact .plain hquote

/-- So may one that is not in the closing mark, for a comment or a raw string. -/
theorem markTail_cons_iff {c : Char} {t : Text} (hne : mark ≠ []) (hc : c ∉ mark) :
    MarkTail mark (c :: t) ↔ MarkTail mark t := by
  constructor
  · intro h
    cases h with
    | close => exact absurd List.mem_cons_self hc
    | plain _ ht => exact ht
  · refine .plain ?_
    intro hfront
    obtain ⟨m, mark, rfl⟩ := List.exists_cons_of_ne_nil hne
    obtain ⟨rfl, -⟩ := List.cons_prefix_cons.1 hfront
    exact hc List.mem_cons_self

/-- A line comment is not changed, and the line behind it is. -/
theorem continued_lineComment (hbody : '\n' ∉ body) (rest : Text) :
    continued oldIndent newIndent ('/' :: '/' :: (body ++ '\n' :: rest)) =
      '/' :: '/' ::
        (body ++ '\n' :: shiftFirst oldIndent newIndent (continued oldIndent newIndent rest)) := by
  rw [continued_cons (by decide), continued_cons (by decide), continued_line hbody]

/-- The text of a segment set anew is the segment's text set anew, for every
    kind of segment. -/
theorem text_mapText_continued (segment : Segment) :
    (segment.mapText (continued oldIndent newIndent)).text =
      continued oldIndent newIndent segment.text := by
  cases segment with
  | code c =>
    by_cases hc : c = '\n'
    · rw [hc]
      rfl
    · exact (continued_cons hc []).symm
  | comment t => rfl
  | literal t => rfl

variable (hold : ∀ c ∈ oldIndent, isIndent c = true) (hnew : ∀ c ∈ newIndent, isIndent c = true)

include hold hnew

/-- A quoted literal that goes on over lines, by escaped line feeds, is closed
    by the same mark when these lines are set anew. -/
theorem quotedTail_continued (hquote : isIndent quote = false) (hfeed : quote ≠ '\n')
    (h : QuotedTail quote closed body) :
    QuotedTail quote closed (continued oldIndent newIndent body) := by
  have hindent (c : Char) (t : Text) (hc : isIndent c = true) :
      QuotedTail quote closed (c :: t) ↔ QuotedTail quote closed t :=
    quotedTail_cons_iff (ne_of_isIndent hc (by decide)) (ne_of_isIndent hc hquote)
      (ne_of_isIndent hc (by decide))
  induction h with
  | close =>
    rw [continued_cons hfeed]
    exact .close
  | cut => exact .cut
  | @escape closed t c ht ih =>
    rw [continued_cons (by decide)]
    by_cases hc : c = '\n'
    · rw [hc, continued_feed]
      exact .escape '\n' (shiftFirst_of_forall hindent hold hnew (ih hindent))
    · rw [continued_cons hc]
      exact .escape c (ih hindent)
  | plain hescape hne hfeed ht ih =>
    rw [continued_cons hfeed]
    exact .plain hescape hne hfeed (ih hindent)

/-- So is a verbatim string, whose lines need no escape. -/
theorem verbatimTail_continued (h : VerbatimTail body) :
    VerbatimTail (continued oldIndent newIndent body) := by
  have hindent (c : Char) (t : Text) (hc : isIndent c = true) :
    VerbatimTail (c :: t) ↔ VerbatimTail t :=
    verbatimTail_cons_iff (ne_of_isIndent hc (by decide))
  induction h with
  | close => exact .close
  | escape _ ih => exact .escape ih
  | @plain c t hquote _ ih =>
    by_cases hc : c = '\n'
    · rw [hc, continued_feed]
      exact .plain (by decide) (shiftFirst_of_forall hindent hold hnew ih)
    · rw [continued_cons hc]
      exact .plain hquote ih

/-- A text up to its first mark is one still when its lines are set anew. The
    mark has no white space, so none can come about in an indentation. -/
theorem markTail_continued (hne : mark ≠ []) (hmark : ∀ c ∈ mark, isBlank c = false)
    (h : MarkTail mark body) :
    MarkTail mark (continued oldIndent newIndent body) := by
  have hnot {c : Char} (hc : isBlank c = true) : c ∉ mark := by
    intro hmem
    rw [hmark c hmem] at hc
    exact absurd hc (by decide)
  have hindent (c : Char) (t : Text) (hc : isIndent c = true) :
    MarkTail mark (c :: t) ↔ MarkTail mark t :=
    markTail_cons_iff hne (hnot (isBlank_of_isIndent hc))
  have hfeed : '\n' ∉ mark := hnot (by decide)
  induction h with
  | close =>
    rw [continued_of_not_mem hfeed]
    exact .close
  | @plain c t hfront _ ih =>
    by_cases hc : c = '\n'
    · rw [hc, continued_feed]
      exact (markTail_cons_iff hne hfeed).2 (shiftFirst_of_forall hindent hold hnew ih)
    · rw [continued_cons hc]
      refine .plain (fun h => hfront ?_) ih
      rwa [← continued_cons hc, prefix_continued_iff hfeed] at h

/-- What may follow a segment may follow it set anew. -/
theorem followedBy_continued {segment : Segment} {rest : Text} (h : segment.FollowedBy rest) :
    (segment.mapText (continued oldIndent newIndent)).FollowedBy rest := by
  have hmarked {marks : Text} (hmarks : ∀ c ∈ marks, isStringMark c = true) (t : Text) :
      continued oldIndent newIndent (marks ++ t) = marks ++ continued oldIndent newIndent t :=
    continued_append_of_not_mem (fun hmem => absurd (hmarks _ hmem) (by decide)) t
  have hquote (t : Text) :
    continued oldIndent newIndent ('"' :: t) = '"' :: continued oldIndent newIndent t :=
    continued_cons (by decide) t
  cases h with
  | code hquote hcomment hmarks => exact .code hquote hcomment hmarks
  | @lineComment body _ hbody =>
    have hsame :
      continued oldIndent newIndent ('/' :: '/' :: (body ++ ['\n'])) =
        '/' :: '/' :: (body ++ ['\n']) :=
      continued_lineComment hbody []
    rw [Segment.mapText, hsame]
    exact .lineComment hbody
  | @blockComment body _ hbody =>
    have htail := markTail_continued hold hnew (by decide) (by decide)
      ((markTail_iff (by decide)).2 ⟨body, rfl, first_close_iff.2 hbody⟩)
    obtain ⟨body', hbody', hfirst⟩ := (markTail_iff (by decide)).1 htail
    rw [Segment.mapText, continued_cons (by decide), continued_cons (by decide), hbody']
    exact .blockComment (first_close_iff.1 hfirst)
  | verbatim hmarks hat hbody hrest =>
    rw [Segment.mapText, hmarked hmarks, hquote]
    exact .verbatim hmarks hat (verbatimTail_continued hold hnew hbody) hrest
  | @ordinary marks body _ closed hmarks hat hbody hempty hcut =>
    rw [Segment.mapText, hmarked hmarks, hquote]
    have htail := quotedTail_continued hold hnew (by decide) (by decide) hbody
    exact .ordinary hmarks hat htail (fun hone => hempty (eq_of_continued_eq hone (by decide))) hcut
  | @raw marks fence body _ hmarks hat hfence hlength hhead hbody =>
    have hne : fence ≠ [] := List.ne_nil_of_length_pos (by omega)
    have hvisible : ∀ c ∈ fence, isBlank c = false := fun c hc => hfence c hc ▸ by decide
    have htail :=
      markTail_continued hold hnew hne hvisible ((markTail_iff hne).2 ⟨body, rfl, hbody⟩)
    obtain ⟨body', hbody', hfirst⟩ := (markTail_iff hne).1 htail
    have hhead' : (continued oldIndent newIndent (body ++ fence)).head? = (body ++ fence).head? :=
      head?_continued _
    rw [← hhead', hbody'] at hhead
    rw [Segment.mapText, hmarked hmarks,
      continued_append_of_not_mem fun hmem => absurd (hfence _ hmem) (by decide), hbody']
    exact .raw hmarks hat hfence hlength hhead hfirst
  | @character body _ closed hbody hcut =>
    rw [Segment.mapText, continued_cons (by decide)]
    exact .character (quotedTail_continued hold hnew (by decide) (by decide) hbody) hcut

end

/-- Set anew, a text lets the same literals begin. -/
theorem yieldsTo_continued (oldIndent newIndent t : Text) :
    YieldsTo t (continued oldIndent newIndent t) := by
  have hhead : (continued oldIndent newIndent t).head? = t.head? := head?_continued t
  refine ⟨⟨?_, ?_, ?_, ?_⟩, ?_⟩
  · rw [hhead]
    exact id
  · rw [hhead]
    exact id
  · rw [hhead]
    exact id
  · rw [dropWhile_continued (by decide), head?_continued]
    exact id
  · rw [AtLineEnd, AtLineEnd, hhead]
    exact id

/-- The second text is the first one set anew, but for the indentation that
    they begin with. That one is left out since a segment may end in front of
    it, and what is read of it is code in both. -/
def Aligned (oldIndent newIndent t t' : Text) : Prop :=
  ∃ indent indent' u, (∀ c ∈ indent, isIndent c = true) ∧ (∀ c ∈ indent', isIndent c = true) ∧
    t = indent ++ u ∧
    t' = indent' ++ continued oldIndent newIndent u

section

variable {oldIndent newIndent t t' rest : Text} {segment : Segment} {segments : List Segment}

/-- A text is so related to itself set anew from within a line, with no
    indentation in front of either. -/
theorem aligned_continued (t : Text) :
    Aligned oldIndent newIndent t (continued oldIndent newIndent t) :=
  ⟨[], [], t, by simp, by simp, rfl, rfl⟩

variable (hold : ∀ c ∈ oldIndent, isIndent c = true) (hnew : ∀ c ∈ newIndent, isIndent c = true)

include hold hnew

/-- A text is so related to itself set anew from the beginning of a line,
    whether or not its first line has the indentation. -/
theorem aligned_shiftFirst (t : Text) :
    Aligned oldIndent newIndent t
      (shiftFirst oldIndent newIndent (continued oldIndent newIndent t)) := by
  rcases shiftFirst_cases oldIndent newIndent (continued oldIndent newIndent t) with
    hsame | ⟨rest, hrest, hchanged⟩
  · rw [hsame]
    exact aligned_continued t
  · have hfeed : '\n' ∉ oldIndent := fun hmem => absurd (hold _ hmem) (by decide)
    obtain ⟨u, rfl⟩ := (prefix_continued_iff hfeed).1 ⟨rest, hrest.symm⟩
    rw [continued_append_of_not_mem hfeed] at hrest
    refine ⟨oldIndent, newIndent, u, hold, hnew, rfl, ?_⟩
    rw [hchanged, List.append_cancel_left hrest]

/-- The first segment of a text set anew is that of the text, its own lines set
    anew. Something has to follow it, as otherwise it may be a literal that was
    not closed. -/
theorem next?_continued (hnext : Segment.next? t = some (segment, rest)) (hrest : rest ≠ []) :
    ∃ rest', Segment.next? (continued oldIndent newIndent t) =
      some (segment.mapText (continued oldIndent newIndent), rest') ∧
        Aligned oldIndent newIndent rest rest' := by
  obtain ⟨rfl, hfollowed⟩ := (next?_eq_some_iff hrest).1 hnext
  have hanew :=
    (followedBy_continued hold hnew hfollowed).exchange
      (yieldsTo_continued oldIndent newIndent rest)
  have hread := next?_append_of_followedBy hanew
  -- Where the segment ends within a line, that line goes on as it was.
  have hcut (h : (∀ c ∈ segment.text.getLast?, isBlank c = false) ∨ AtLineEnd rest) :
      ∃ rest', Segment.next? (continued oldIndent newIndent (segment.text ++ rest)) =
        some (segment.mapText (continued oldIndent newIndent), rest') ∧
          Aligned oldIndent newIndent rest rest' := by
    refine ⟨_, ?_, aligned_continued rest⟩
    rw [continued_append hold h, ← text_mapText_continued]
    exact hread
  rcases hfollowed.ends with ⟨c, rfl⟩ | ⟨body, hbody, rfl⟩ | ⟨-, hend⟩ | ⟨c, hc, hlast⟩
  · by_cases hc : c = '\n'
    · subst hc
      exact ⟨_, next?_inert (by decide) _, aligned_shiftFirst hold hnew rest⟩
    · refine ⟨_, ?_, aligned_continued rest⟩
      rw [Segment.text, List.singleton_append, continued_cons hc]
      exact hread
  · refine ⟨_, ?_, aligned_shiftFirst hold hnew rest⟩
    have hsame :
      continued oldIndent newIndent ('/' :: '/' :: (body ++ ['\n'])) =
        '/' :: '/' :: (body ++ ['\n']) :=
      continued_lineComment hbody []
    have hcomment : (Segment.comment ('/' :: '/' :: (body ++ ['\n']))).FollowedBy
        (shiftFirst oldIndent newIndent (continued oldIndent newIndent rest)) :=
      .lineComment hbody
    have htext : continued oldIndent newIndent ('/' :: '/' :: (body ++ ['\n']) ++ rest) =
        '/' :: '/' :: (body ++ ['\n']) ++
          shiftFirst oldIndent newIndent (continued oldIndent newIndent rest) := by
      have hline : continued oldIndent newIndent ('/' :: '/' :: (body ++ '\n' :: rest)) = _ :=
        continued_lineComment hbody rest
      simpa using hline
    rw [Segment.text, htext, Segment.mapText, hsame]
    exact next?_append_of_followedBy hcomment
  · exact hcut (Or.inr hend)
  · refine hcut (Or.inl fun d hd => ?_)
    obtain rfl := Option.some.inj (hlast.symm.trans hd)
    exact Bool.eq_false_iff.2 fun hblank => not_mem_of_all (by decide) hblank hc

/-- What is read of a text is read of the text set anew, the comments and
    literals with their own lines set anew. Code is left out of the comparison,
    as the indentations are code. -/
theorem exists_reads_of_aligned (h : Reads t segments rest) (hrest : rest ≠ [])
    (ht : Aligned oldIndent newIndent t t') :
    ∃ segments' rest', Reads t' segments' rest' ∧ Aligned oldIndent newIndent rest rest' ∧
      visible segments' =
        (visible segments).map (Segment.mapText (continued oldIndent newIndent)) := by
  induction h generalizing t' with
  | done t => exact ⟨[], t', .done t', ht, rfl⟩
  | @next t after rest segment others hnext hothers ih =>
    obtain ⟨indent, indent', u, hindent, hindent', rfl, rfl⟩ := ht
    cases indent with
    | nil =>
      have hafter : after ≠ [] := by
        rw [hothers.text_eq]
        exact List.append_ne_nil_of_right_ne_nil _ hrest
      obtain ⟨after', hnext', haligned⟩ := next?_continued hold hnew hnext hafter
      obtain ⟨segments', rest', hreads, hrest', hvisible⟩ := ih hrest haligned
      have hblanks : ∀ c ∈ indent', isBlank c = true :=
        fun c hc => isBlank_of_isIndent (hindent' c hc)
      refine ⟨_, rest', (reads_blanks hblanks _).trans (.next hnext' hreads), hrest', ?_⟩
      rw [visible_append, visible_blanks hblanks, List.nil_append]
      exact visible_cons_map hvisible segment
    | cons c indent =>
      obtain ⟨hc, hindent⟩ := List.forall_mem_cons.1 hindent
      have hblank : (Segment.code c).isBlank = true := isBlank_of_isIndent hc
      rw [List.cons_append, next?_inert (isInert_of (by decide) hc)] at hnext
      obtain ⟨rfl, rfl⟩ := Prod.mk.inj (Option.some.inj hnext)
      rw [visible_cons_of_isBlank hblank]
      exact ih hrest ⟨indent, indent', u, hindent, hindent', rfl, rfl⟩

end

end Indent

end EntitySplit
