import EntitySplit.Proofs.Lexical.Kind
import EntitySplit.Text.Blank
import Mathlib.Data.List.Forall2

namespace EntitySplit

namespace Lexical

/-- The same characters of the same kinds, apart from the kinds of white space.
    White space itself must be the same; only what it belongs to may differ. -/
def SameVisible (a b : Labelled) : Prop :=
  List.Forall₂ (fun x y => x.1 = y.1 ∧ (Text.isBlank x.1 = false → x.2 = y.2)) a b

namespace SameVisible

variable {a b a' b' : Labelled}

theorem refl (a : Labelled) : SameVisible a a :=
  List.forall₂_same.2 fun _ _ => ⟨rfl, fun _ => rfl⟩

theorem trans {c : Labelled} (h : SameVisible a b) (h' : SameVisible b c) : SameVisible a c := by
  induction h generalizing c with
  | nil => exact h'
  | cons hx _ ih =>
    cases h' with
    | cons hy hothers =>
      refine .cons ⟨hx.1.trans hy.1, fun hvisible => (hx.2 hvisible).trans (hy.2 ?_)⟩ (ih hothers)
      rwa [← hx.1]

theorem append (h : SameVisible a b) (h' : SameVisible a' b') : SameVisible (a ++ a') (b ++ b') :=
  List.rel_append h h'

/-- White space of one kind is the same as that white space of another kind. -/
theorem of_blank {t : Text} (hblank : ∀ c ∈ t, Text.isBlank c = true) (kind kind' : Kind) :
    SameVisible (labelled kind t) (labelled kind' t) := by
  rw [SameVisible, labelled, labelled, List.forall₂_map_left_iff, List.forall₂_map_right_iff,
    List.forall₂_same]
  intro c hc
  refine ⟨rfl, fun hvisible => ?_⟩
  rw [hblank c hc] at hvisible
  exact absurd hvisible (by decide)

end SameVisible

/-- Only white space comes before the first line feed, or before the end if
    there is none. The text behind the line feed is arbitrary. -/
def BlankLine (t : Text) : Prop :=
  ∀ c ∈ t.takeWhile (· ≠ '\n'), Text.isBlank c = true
deriving Decidable

section

variable {t x y blanks more : Text} {segments : List Segment}

/-- Two texts that begin with a blank line do so together. If the first has no
    line feed, its white space goes on with that of the second. -/
theorem BlankLine.append (h : BlankLine t) (h' : BlankLine y) : BlankLine (t ++ y) := by
  obtain ⟨run, rest, rfl, hrun, hstop⟩ := Text.exists_run (· ≠ '\n') t
  rw [BlankLine, Text.takeWhile_run_append hrun hstop] at h
  cases rest with
  | nil =>
    rw [BlankLine, List.append_nil, List.takeWhile_append_of_pos hrun]
    intro c hc
    rcases List.mem_append.1 hc with hc | hc
    · exact h c hc
    · exact h' c hc
  | cons c rest =>
    rw [BlankLine, List.append_assoc, Text.takeWhile_run_append hrun (by simpa using hstop)]
    exact h

/-- A text that begins with a blank line is white space without a line feed and
    then the end of the line. The two parts are what a segment before the text
    can take in and what it cannot. -/
theorem BlankLine.exists_append (h : BlankLine t) :
    ∃ blanks more, t = blanks ++ more ∧ (∀ c ∈ blanks, Text.isBlank c = true ∧ c ≠ '\n') ∧
      AtLineEnd more := by
  obtain ⟨run, rest, rfl, hrun, hstop⟩ := Text.exists_run (· ≠ '\n') t
  rw [BlankLine, Text.takeWhile_run_append hrun hstop] at h
  refine ⟨run, rest, rfl, fun c hc => ⟨h c hc, of_decide_eq_true (hrun c hc)⟩, fun c hc => ?_⟩
  simpa using hstop c hc

/-- White space at the beginning of a text is code, and what follows it is
    labelled as it is alone. -/
theorem labels_blank_append (hblank : ∀ c ∈ blanks, Text.isBlank c = true) (more : Text) :
    labels (blanks ++ more) = labelled .code blanks ++ labels more := by
  have hinert : ∀ c ∈ blanks, isInert c = true := fun c hc => isInert_of (by decide) (hblank c hc)
  rw [(reads_of_isInert hinert more).labels_eq, labelsOf_code]

/-- A blank line makes nothing more of a segment before it, since white space
    begins no comment and no string. No premise is put on what it takes the
    place of. -/
theorem BlankLine.beginsNoMore (h : BlankLine y) : BeginsNoMore x y := by
  apply beginsNoMore_of_isPlain
  intro c hc hmem
  have hblank : Text.isBlank c = true := by
    by_cases hfeed : c = '\n'
    · rw [hfeed]
      decide
    · obtain ⟨more, rfl⟩ := List.head?_eq_some_iff.1 hc
      exact h c (by simp [hfeed])
  exact not_mem_of_all (by decide) hblank hmem

/-- A literal that is cut short goes on over characters that neither close nor
    escape anything. A closed one does not, hence the premise. -/
theorem QuotedTail.append {quote : Char} {closed : Bool} {body : Text}
    (h : QuotedTail quote closed body) (hclosed : closed = false)
    (hmore : ∀ c ∈ more, c ≠ '\\' ∧ c ≠ quote ∧ c ≠ '\n') :
    QuotedTail quote false (body ++ more) := by
  induction h with
  | close => exact absurd hclosed (by decide)
  | cut =>
    rw [List.nil_append]
    induction more with
    | nil => exact .cut
    | cons c more ih =>
      obtain ⟨hescape, hquote, hfeed⟩ := hmore c List.mem_cons_self
      exact .plain hescape hquote hfeed (ih fun d hd => hmore d (List.mem_cons_of_mem c hd))
  | escape c _ ih => exact .escape c (ih hclosed)
  | plain hescape hquote hfeed _ ih => exact .plain hescape hquote hfeed (ih hclosed)

/-- A literal that its line cuts short takes in white space that is put behind
    it on the line, and stays of its kind. -/
theorem Segment.CutShort.append {segment : Segment} (h : segment.CutShort)
    (hmore : ∀ c ∈ more, c ∉ ['\\', '"', '\'', '\n']) :
    ∃ longer : Segment, longer.text = segment.text ++ more ∧ longer.kind = segment.kind ∧
      longer.CutShort := by
  simp only [List.mem_cons, List.not_mem_nil, or_false, not_or] at hmore
  cases h with
  | @ordinary marks body hmarks hat hbody =>
    have hlonger :=
      hbody.append rfl fun c hc => ⟨(hmore c hc).1, (hmore c hc).2.1, (hmore c hc).2.2.2⟩
    refine ⟨_, by simp [text], ?_, .ordinary hmarks hat hlonger⟩
    cases marks <;> rfl
  | character hbody =>
    have hlonger :=
      hbody.append rfl fun c hc => ⟨(hmore c hc).1, (hmore c hc).2.2.1, (hmore c hc).2.2.2⟩
    exact ⟨.literal ('\'' :: (_ ++ more)), by simp [text], rfl, .character hlonger⟩

end

section

variable {t x y : Text} {segments : List Segment}

/-- The first segment of a text is labelled as a whole, and what follows it is
    labelled as it is alone. -/
theorem Segment.labels_append {segment : Segment} (h : segment.FollowedBy y) :
    labels (segment.text ++ y) = labelled segment.kind segment.text ++ labels y := by
  rw [(Reads.single (next?_append_of_followedBy h)).labels_eq, labelsOf_cons, labelsOf_nil,
    List.append_nil]

/-- Behind a segment a blank line can take the place of any other text. A
    literal that is cut short takes in the white space, whose kind is not
    looked at. -/
theorem Segment.FollowedBy.labels_blankLine {segment : Segment} (h : segment.FollowedBy x)
    (hblank : BlankLine y) :
    SameVisible (labelled segment.kind segment.text ++ labels y) (labels (segment.text ++ y)) := by
  obtain ⟨blanks, more, rfl, hblanks, hend⟩ := hblank.exists_append
  have hspace : ∀ c ∈ blanks, Text.isBlank c = true := fun c hc => (hblanks c hc).1
  rcases h.exchange_or_cutShort hblank.beginsNoMore with hfollowed | ⟨hcut, -⟩
  · rw [labels_append hfollowed]
    exact .refl _
  · have hmarks : ∀ c ∈ blanks, c ∉ ['\\', '"', '\'', '\n'] := by
      intro c hc
      have hquotes : c ∉ ['\\', '"', '\''] := not_mem_of_all (by decide) (hspace c hc)
      simpa [(hblanks c hc).2] using hquotes
    obtain ⟨longer, htext, hkind, hlonger⟩ := hcut.append hmarks
    have hlabels := labels_append (hlonger.followedBy hend)
    rw [htext, hkind, List.append_assoc] at hlabels
    rw [hlabels, labels_blank_append hspace, labelled_append, List.append_assoc]
    exact .append (.refl _) (.append (.of_blank hspace _ _) (.refl _))

/-- A blank line can take the place of any text behind whole segments. There
    must have been some text, as without any a comment or literal that nothing
    closes would count as whole. -/
theorem Reads.labels_blankLine (h : Reads t segments x) (hx : x ≠ []) (hblank : BlankLine y) :
    SameVisible (labelsOf segments ++ labels y) (labels (segments.flatMap Segment.text ++ y)) := by
  rcases List.eq_nil_or_concat segments with rfl | ⟨others, segment, rfl⟩
  · exact .refl _
  · rw [List.concat_eq_append] at h ⊢
    obtain ⟨u, hothers, hsegment⟩ := h.exists_of_append
    cases hsegment with
    | next hnext hdone =>
      cases hdone
      obtain ⟨rfl, hfollowed⟩ := (next?_eq_some_iff hx).1 hnext
      have hne := (Segment.eq_append_of_next? hnext).2
      have hreads := hothers.exchange (by simp [hne]) (hblank.beginsNoMore.append hne)
      rw [List.flatMap_append, List.flatMap_singleton, List.append_assoc, hreads.labels_eq,
        labelsOf_append, List.append_assoc, labelsOf_cons, labelsOf_nil, List.append_nil]
      exact .append (.refl _) (hfollowed.labels_blankLine hblank)

theorem comment?_unended {body : Text} (hbody : '\n' ∉ body) :
    comment? ('/' :: '/' :: body) = some ('/' :: '/' :: body, []) := by
  have hthrough : Text.through ['\n'] body = (body, []) := by
    induction body with
    | nil => rfl
    | cons c body ih =>
      have hnone : Text.after? ['\n'] (c :: body) = none := by
        rw [Text.after?_eq_none_iff, List.singleton_prefix_cons_iff]
        exact fun heq => hbody (heq ▸ List.mem_cons_self)
      rw [Text.through, hnone, ih (fun hmem => hbody (List.mem_cons_of_mem c hmem))]
  rw [comment?, hthrough]

/-- A line comment goes on over a blank line and ends with it. The comment
    itself is arbitrary, so that it can be one that is cut off. -/
theorem BlankLine.exists_comment? (h : BlankLine y) : ∃ line rest, y = line ++ rest ∧
    (∀ c ∈ line, Text.isBlank c = true) ∧
    ∀ body, '\n' ∉ body →
      comment? ('/' :: '/' :: body ++ y) = some ('/' :: '/' :: body ++ line, rest) := by
  obtain ⟨blanks, more, rfl, hblanks, hend⟩ := h.exists_append
  have hfeed {body : Text} (hbody : '\n' ∉ body) : '\n' ∉ body ++ blanks := by
    intro hmem
    rcases List.mem_append.1 hmem with hmem | hmem
    · exact hbody hmem
    · exact (hblanks '\n' hmem).2 rfl
  cases more with
  | nil =>
    refine ⟨blanks, [], rfl, fun c hc => (hblanks c hc).1, fun body hbody => ?_⟩
    rw [List.append_nil]
    exact comment?_unended (hfeed hbody)
  | cons c more =>
    obtain rfl : c = '\n' := hend c rfl
    refine ⟨blanks ++ ['\n'], more, by simp, ?_, fun body hbody => ?_⟩
    · intro c hc
      rcases List.mem_append.1 hc with hc | hc
      · exact (hblanks c hc).1
      · obtain rfl := List.mem_singleton.1 hc
        decide
    · have hcomment := comment?_line (hfeed hbody) more
      simpa using hcomment

/-- Where a line comment is cut and the rest of it has no slash, its two
    slashes are before the cut. What is before the cut is then the beginning of
    a line comment. -/
theorem exists_of_cut_lineComment {front back body : Text}
    (h : front ++ back = '/' :: '/' :: (body ++ ['\n'])) (hne : back ≠ []) (hback : '/' ∉ back) :
    ∃ inner more, front = '/' :: '/' :: inner ∧ body = inner ++ more := by
  rcases front with - | ⟨a, - | ⟨b, inner⟩⟩
  · rw [List.nil_append] at h
    exact absurd (by simp [h]) hback
  · rw [List.singleton_append, List.cons.injEq] at h
    exact absurd (by simp [h.2]) hback
  · simp only [List.cons_append, List.cons.injEq] at h
    obtain ⟨rfl, rfl, htail⟩ := h
    rcases List.append_eq_append_iff.1 htail with ⟨more, hbody, -⟩ | ⟨more, hinner, hlast⟩
    · exact ⟨inner, more, rfl, hbody⟩
    · have hmore : more = [] := by
        have hlength := congrArg List.length hlast
        have hpositive := List.length_pos_iff.2 hne
        rw [List.length_singleton, List.length_append] at hlength
        exact List.eq_nil_of_length_eq_zero (by omega)
      exact ⟨inner, [], rfl, by rw [hinner, hmore, List.append_nil, List.append_nil]⟩

/-- A blank line can take the place of the end of a line comment and what
    follows it. That this end has no slash keeps the cut behind the two
    slashes, and leaves block comments out. -/
theorem Reads.labels_comment_blankLine {front back rest : Text}
    (h : Reads t segments (front ++ back ++ rest))
    (hcomment : (Segment.comment (front ++ back)).FollowedBy rest) (hne : back ≠ [])
    (hback : '/' ∉ back) (hblank : BlankLine y) :
    SameVisible (labelsOf segments ++ labelled .comment front ++ labels y)
      (labels (segments.flatMap Segment.text ++ (front ++ y))) := by
  generalize hwhole : front ++ back = comment at h hcomment
  cases hcomment with
  | @blockComment body _ hbody =>
    have hlast := congrArg List.getLast? hwhole
    rw [List.getLast?_append_of_ne_nil _ hne, List.getLast?_eq_some_getLast hne] at hlast
    have hslash : back.getLast hne = '/' := by simpa [List.getLast?_cons] using hlast
    exact absurd (hslash ▸ List.getLast_mem hne) hback
  | @lineComment body _ hbody =>
    obtain ⟨inner, more, rfl, rfl⟩ := exists_of_cut_lineComment hwhole hne hback
    obtain ⟨line, after, rfl, hspace, hcomment⟩ := hblank.exists_comment?
    have hinner : '\n' ∉ inner := fun hmem => hbody (List.mem_append_left more hmem)
    have hyields : YieldsTo ('/' :: '/' :: (inner ++ more ++ ['\n']) ++ rest)
        ('/' :: '/' :: inner ++ (line ++ after)) := .cons (by decide)
    have hreads :=
      (h.exchange (by simp) hyields).trans (.single (next?_of_comment? (hcomment inner hinner)))
    rw [hreads.labels_eq, labelsOf_append, labelsOf_cons, labelsOf_nil, List.append_nil,
      Segment.text, Segment.kind, labelled_append, labels_blank_append hspace, List.append_assoc,
      List.append_assoc, List.append_assoc]
    exact .append (.refl _) (.append (.refl _) (.append (.of_blank hspace _ _) (.refl _)))

end

end Lexical

end EntitySplit
