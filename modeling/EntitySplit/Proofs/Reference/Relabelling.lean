import EntitySplit.Proofs.Block.Excerpts
import EntitySplit.Proofs.Lexical.BlankLine

namespace EntitySplit

namespace Reference

open Lexical Block

/-- The place of a block in a labelled document, cut into the parts that stay
    and those that go. -/
structure Place where
  /-- What stands between the block before and the call site. -/
  kept : Labelled
  site : Labelled
  statement : Labelled
  /-- What takes the place of the statement, if anything does. -/
  reference : Option Text

namespace Place

/-- The place as it was, with the call site and the statement. -/
def old (place : Place) : Labelled :=
  place.kept ++ (place.site ++ place.statement)

/-- What is put in the place of call site and statement. A reference is code,
    and the call site before it keeps its kinds. -/
def given (place : Place) : Labelled :=
  match place.reference with
  | none => []
  | some reference => place.site ++ labelled .code reference

/-- The place with what is put in, as the rewritten document is to be labelled. -/
def new (place : Place) : Labelled :=
  place.kept ++ place.given

/-- The place has the parts of the excerpt. What they are labelled with is not
    said here, but by how the document is cut into places. -/
structure IsOf (place : Place) (excerpt : Excerpt) : Prop where
  kept : place.kept.text = excerpt.lead
  site : place.site.text = excerpt.callSite
  statement : place.statement.text = excerpt.statement

end Place

/-- What may take the place of a statement: text that begins with the receiver
    as the statement does and in which everything is code. The last character
    must be no mark of a string, for a quote may follow. -/
structure IsReference (receiver new : Text) : Prop where
  begins : receiver <+: new
  plain : ∀ c ∈ new, BeginsNothing c
  ends : ∀ c ∈ new.getLast?, isStringMark c = false

section

variable {receiver rest after new : Text} {excerpt : Excerpt}

/-- A labelled text is cut where its text is. Labels go by characters, so each
    cut of the text is one of the labelled text. -/
theorem exists_append_of_text {whole : Labelled} {t u : Text} (h : whole.text = t ++ u) :
    ∃ a b, whole = a ++ b ∧ a.text = t ∧ b.text = u := by
  obtain ⟨a, b, hsplit, ha, hb⟩ := List.map_eq_append_iff.1 h
  exact ⟨a, b, hsplit, ha, hb⟩

/-- A place for the excerpt, and how a reference in its place is read. Nothing
    is open where the statement starts and where it ends, so neither the text
    before nor the text behind is read in another way. -/
theorem exists_place_replaced (h : excerpt.Readable receiver rest) (hne : receiver ≠ [])
    (hword : ∀ c ∈ receiver, Text.isWord c = true) (hnew : IsReference receiver new) :
    ∃ place : Place, place.IsOf excerpt ∧ place.reference = some new ∧
      labels (excerpt.text ++ rest) = place.old ++ labels rest ∧
      ∀ after, labels (excerpt.lead ++ (excerpt.callSite ++ (new ++ after))) =
        place.new ++ labels after := by
  obtain ⟨before, hbefore⟩ := h.starts
  obtain ⟨statement, hstatement⟩ := h.ends
  have htext : (labelsOf before).text = excerpt.lead ++ excerpt.callSite := by
    have heq := hbefore.text_eq
    rw [Excerpt.text, List.append_assoc _ excerpt.statement] at heq
    rw [text_labelsOf, List.append_cancel_right heq]
  obtain ⟨kept, site, hsplit, hkept, hsite⟩ := exists_append_of_text htext
  refine ⟨⟨kept, site, labelsOf statement, some new⟩, ⟨hkept, hsite, ?_⟩, rfl, ?_, ?_⟩
  · rw [text_labelsOf, List.append_cancel_right hstatement.text_eq]
  · rw [(hbefore.trans hstatement).labels_eq, labelsOf_append, hsplit, Place.old,
      List.append_assoc kept]
  · intro after
    obtain ⟨c, others, rfl⟩ := List.exists_cons_of_ne_nil hne
    obtain ⟨more, hmore⟩ := h.begins
    obtain ⟨more', hmore'⟩ := hnew.begins
    have hmark : isStringMark c = false :=
      isStringMark_of_isInert (isInert_of (by decide +kernel) (hword c List.mem_cons_self))
    have hyields : YieldsTo (excerpt.statement ++ rest) (new ++ after) := by
      rw [← hmore, ← hmore']
      exact .cons hmark
    have hreads :=
      (hbefore.exchange (by simp [← hmore]) hyields).trans (reads_code hnew.plain hnew.ends after)
    have hlead : excerpt.lead ++ (excerpt.callSite ++ (new ++ after)) =
        before.flatMap Segment.text ++ (new ++ after) := by
      rw [← text_labelsOf, htext, List.append_assoc]
    rw [hlead, hreads.labels_eq, labelsOf_append, labelsOf_code, hsplit, Place.new, Place.given,
      List.append_assoc kept]

/-- How a text is labelled around a cut between `lead` and `site`, such that a
    blank line can take the place of what is behind the cut. Only white space
    may change its kind by that. -/
def CutBefore (lead site rest : Text) : Prop :=
  ∃ a b : Labelled, a.text = lead ∧ b.text = site ∧
    labels (lead ++ (site ++ rest)) = a ++ (b ++ labels rest) ∧
    ∀ after, BlankLine after → SameVisible (a ++ labels after) (labels (lead ++ after))

section

variable {lead site : Text}

/-- Where the text is read exactly up to the call site, it is cut there:
    nothing is open at the cut, so a blank line behind it is code. -/
theorem cutBefore_of_reads {segments : List Segment}
    (h : Reads (lead ++ (site ++ rest)) segments (site ++ rest)) (hrest : rest ≠ [])
    (hreaches : Reaches (lead ++ (site ++ rest)) rest) :
    CutBefore lead site rest := by
  obtain ⟨all, hall⟩ := hreaches
  obtain ⟨between, hbetween⟩ := h.exists_of_length_le hall (by simp)
  have hlead : lead = segments.flatMap Segment.text := List.append_cancel_right h.text_eq
  refine ⟨labelsOf segments, labelsOf between, ?_, ?_, ?_, ?_⟩
  · rw [text_labelsOf, hlead]
  · rw [text_labelsOf, List.append_cancel_right hbetween.text_eq]
  · rw [(h.trans hbetween).labels_eq, labelsOf_append, List.append_assoc]
  · intro after hafter
    rw [hlead]
    exact h.labels_blankLine (List.append_ne_nil_of_right_ne_nil site hrest) hafter

/-- The cut is within a line comment, which ends in `site`. That the call site
    has no slash is needed, for `*/` would close a comment of the other kind;
    and the comment has begun before the cut. -/
theorem cutBefore_of_comment {segments : List Segment} {front back behind : Text}
    (h : Reads (lead ++ (site ++ rest)) segments (front ++ back ++ behind))
    (hcomment : Segment.next? (front ++ back ++ behind) = some (.comment (front ++ back), behind))
    (hlead : lead = segments.flatMap Segment.text ++ front) (hfront : front ≠ [])
    (hback : back ≠ []) (hsite : site ++ rest = back ++ behind) (hslash : '/' ∉ site)
    (hrest : rest ≠ [])
    (hreaches : Reaches (lead ++ (site ++ rest)) rest) : CutBefore lead site rest := by
  obtain ⟨all, hall⟩ := hreaches
  have hlength : rest.length < (front ++ back ++ behind).length := by
    have hpositive := List.length_pos_iff.2 hfront
    rw [List.append_assoc, ← hsite, List.length_append, List.length_append]
    omega
  obtain ⟨between, hbetween⟩ := h.exists_of_length_le hall (Nat.le_of_lt hlength)
  cases hbetween with
  | done => exact absurd hlength (Nat.lt_irrefl _)
  | @next _ _ _ _ others hnext hothers =>
    -- The reading that reaches `rest` goes over the comment first, so `site` has the end of it.
    rw [hcomment, Option.some.injEq, Prod.mk.injEq] at hnext
    obtain ⟨rfl, rfl⟩ := hnext
    have hbehind := hothers.text_eq
    have hsplit : site = back ++ others.flatMap Segment.text := by
      rw [hbehind, ← List.append_assoc] at hsite
      exact List.append_cancel_right hsite
    have hfollowed : (Segment.comment (front ++ back)).FollowedBy behind := by
      have hne : behind ≠ [] := by
        rw [hbehind]
        exact List.append_ne_nil_of_right_ne_nil _ hrest
      exact ((next?_eq_some_iff hne).1 hcomment).2
    refine ⟨labelsOf segments ++ labelled .comment front, labelled .comment back ++ labelsOf others,
      ?_, ?_, ?_, ?_⟩
    · rw [Labelled.text_append, text_labelsOf, Labelled.text_labelled, hlead]
    · rw [Labelled.text_append, text_labelsOf, Labelled.text_labelled, hsplit]
    · rw [(h.trans (.next hcomment hothers)).labels_eq, labelsOf_append, labelsOf_cons,
        Segment.text, Segment.kind, labelled_append]
      simp only [List.append_assoc]
    · intro after hafter
      have hnot : '/' ∉ back := fun hmem => hslash (by simp [hsplit, hmem])
      rw [hlead, List.append_assoc (segments.flatMap Segment.text)]
      exact h.labels_comment_blankLine hfollowed hback hnot hafter

/-- A call site that begins in code or in a comment can be cut away. This is
    the case analysis of the two lemmas before; in a literal the cut would
    leave it open. -/
theorem cutBefore_of_kindAt? (hreaches : Reaches (lead ++ (site ++ rest)) rest) (hrest : rest ≠ [])
    (hslash : '/' ∉ site)
    (hkind : kindAt? (lead ++ (site ++ rest)) lead.size ∈ [some .code, some .comment]) :
    CutBefore lead site rest := by
  obtain ⟨c, more, hcons⟩ :=
    List.exists_cons_of_ne_nil (List.append_ne_nil_of_right_ne_nil site hrest)
  obtain ⟨segment, front, back, behind, hpasses, hback⟩ :=
    exists_passesAt (congrArg (lead ++ ·) hcons)
  obtain ⟨segments, hreads, hlead⟩ := hpasses.reads
  have htext := hpasses.text_eq
  have hnext := hpasses.next
  rw [htext] at hreads hnext
  rw [← hcons] at hback
  by_cases hfront : front = []
  · rw [hfront, List.nil_append, ← hback] at hreads
    exact cutBefore_of_reads hreads hrest hreaches
  · rw [hpasses.kindAt?_eq] at hkind
    cases segment with
    | code d =>
      have hlength := congrArg List.length htext
      have hpositive := List.length_pos_iff.2 hfront
      have hpositive' := List.length_pos_iff.2 hpasses.back_ne
      rw [Segment.text, List.length_singleton, List.length_append] at hlength
      omega
    | comment t =>
      obtain rfl : t = front ++ back := htext
      exact cutBefore_of_comment hreads hnext hlead hfront hpasses.back_ne hback hslash hrest
        hreaches
    | literal t =>
      rw [Segment.kind] at hkind
      split at hkind <;> simp at hkind

end

/-- A place for the excerpt, and how a blank line is read behind what came
    before it. In place of the premise on a reference stands that on the kind
    of the character at which the removal begins. -/
theorem exists_place_removed (h : excerpt.Readable receiver rest) (hne : receiver ≠ [])
    (hkind : kindAt? (excerpt.text ++ rest) excerpt.lead.size ∈ [some .code, some .comment]) :
    ∃ place : Place, place.IsOf excerpt ∧ place.reference = none ∧
      labels (excerpt.text ++ rest) = place.old ++ labels rest ∧
      ∀ after, BlankLine after →
        SameVisible (place.new ++ labels after) (labels (excerpt.lead ++ after)) := by
  have hparts :
    excerpt.text ++ rest = excerpt.lead ++ (excerpt.callSite ++ (excerpt.statement ++ rest)) := by
    simp [Excerpt.text]
  have hstarts := h.starts
  rw [hparts] at hstarts hkind
  have hstatement : excerpt.statement ++ rest ≠ [] := by
    obtain ⟨more, hmore⟩ := h.begins
    simp [← hmore, hne]
  have hslash : '/' ∉ excerpt.callSite := fun hmem => h.callSite_plain '/' hmem (by decide)
  obtain ⟨kept, site, hkept, hsite, hlabels, hblank⟩ :=
    cutBefore_of_kindAt? hstarts hstatement hslash hkind
  obtain ⟨statement, hreads⟩ := h.ends
  refine ⟨⟨kept, site, labelsOf statement, none⟩, ⟨hkept, hsite, ?_⟩, rfl, ?_, ?_⟩
  · rw [text_labelsOf, List.append_cancel_right hreads.text_eq]
  · rw [hparts, hlabels, hreads.labels_eq, Place.old, List.append_assoc, List.append_assoc]
  · intro after hafter
    rw [Place.new, Place.given, List.append_nil]
    exact hblank after hafter

end

/-- The text that becomes of excerpts and a tail when each statement gives way
    to a reference or to nothing. Where nothing comes in its place, its line
    was not that of a literal before it, and a blank line is left behind it. -/
inductive Rewrites (receiver tail : Text) :
    (excerpts : List Excerpt) → (references : List (Option Text)) →
    (result : Text) → Prop where
  | done : Rewrites receiver tail [] [] tail
  | replace {excerpt : Excerpt} {excerpts : List Excerpt} {references : List (Option Text)}
      {new result : Text} (hnew : IsReference receiver new)
      (hothers : Rewrites receiver tail excerpts references result) :
      Rewrites receiver tail (excerpt :: excerpts) (some new :: references)
        (excerpt.lead ++ (excerpt.callSite ++ (new ++ result)))
  | remove {excerpt : Excerpt} {excerpts : List Excerpt} {references : List (Option Text)}
      {result : Text}
      (hkind : kindAt? (excerpt.text ++ (excerpts.flatMap Excerpt.text ++ tail)) excerpt.lead.size ∈
        [some .code, some .comment])
      (hblank : BlankLine result) (hothers : Rewrites receiver tail excerpts references result) :
      Rewrites receiver tail (excerpt :: excerpts) (none :: references) (excerpt.lead ++ result)

/-- The characters that stay are of the same kinds in both texts, white space
    apart, and where every statement gives way to a reference white space as
    well. The induction is on the derivation, with one place for each excerpt;
    the readability of the excerpts is what makes each step possible. -/
theorem Rewrites.exists_places {receiver tail result : Text} {excerpts : List Excerpt}
    {references : List (Option Text)} (h : Rewrites receiver tail excerpts references result)
    (hne : receiver ≠ []) (hword : ∀ c ∈ receiver, Text.isWord c = true)
    (hreadable : ∀ before excerpt after, excerpts = before ++ excerpt :: after →
      excerpt.Readable receiver (after.flatMap Excerpt.text ++ tail)) :
    ∃ (places : List Place) (last : Labelled), List.Forall₂ Place.IsOf places excerpts ∧
      last.text = tail ∧
      places.map Place.reference = references ∧
      labels (excerpts.flatMap Excerpt.text ++ tail) = places.flatMap Place.old ++ last ∧
      SameVisible (places.flatMap Place.new ++ last) (labels result) ∧
      (none ∉ references → labels result = places.flatMap Place.new ++ last) := by
  induction h with
  | done => exact ⟨[], labels tail, .nil, text_labels tail, rfl, rfl, .refl _, fun _ => rfl⟩
  | @replace excerpt excerpts references new result hnew _ ih =>
    obtain ⟨places, last, hparts, hlast, hreferences, hold, hvisible, hsame⟩ :=
      ih fun before e after heq =>
        hreadable (excerpt :: before) e after (by rw [heq, List.cons_append])
    obtain ⟨place, hof, hreference, hplace, hnewLabels⟩ :=
      exists_place_replaced (hreadable [] excerpt excerpts rfl) hne hword hnew
    refine ⟨place :: places, last, .cons hof hparts, hlast, ?_, ?_, ?_, ?_⟩
    · rw [List.map_cons, hreference, hreferences]
    · rw [List.flatMap_cons, List.append_assoc, hplace, hold, List.flatMap_cons, List.append_assoc]
    · rw [hnewLabels, List.flatMap_cons, List.append_assoc]
      exact .append (.refl _) hvisible
    · intro hnone
      rw [List.mem_cons, not_or] at hnone
      rw [hnewLabels, hsame hnone.2, List.flatMap_cons, List.append_assoc]
  | @remove excerpt excerpts references result hkind hblank _ ih =>
    obtain ⟨places, last, hparts, hlast, hreferences, hold, hvisible, -⟩ :=
      ih fun before e after heq =>
        hreadable (excerpt :: before) e after (by rw [heq, List.cons_append])
    obtain ⟨place, hof, hreference, hplace, hnewLabels⟩ :=
      exists_place_removed (hreadable [] excerpt excerpts rfl) hne hkind
    refine ⟨place :: places, last, .cons hof hparts, hlast, ?_, ?_, ?_, ?_⟩
    · rw [List.map_cons, hreference, hreferences]
    · rw [List.flatMap_cons, List.append_assoc, hplace, hold, List.flatMap_cons, List.append_assoc]
    · rw [List.flatMap_cons, List.append_assoc]
      exact (SameVisible.append (.refl _) hvisible).trans (hnewLabels result hblank)
    · intro hnone
      exact absurd List.mem_cons_self hnone

end Reference

end EntitySplit
