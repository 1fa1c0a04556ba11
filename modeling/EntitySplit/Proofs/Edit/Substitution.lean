import EntitySplit.Proofs.Edit.Interleave

namespace EntitySplit

namespace Span

/-- Between two places where a document can be cut it has a text. The second
    must not be before the first. -/
theorem exists_slice {document before rest before' rest' : Text} (h : document = before ++ rest)
    (h' : document = before' ++ rest') (hle : before.size ≤ before'.size) :
    ∃ inside, slice? ⟨before.size, before'.size⟩ document = some inside := by
  obtain ⟨inside, rfl⟩ := Text.exists_append_of_size_le (h.symm.trans h') hle
  exact ⟨inside,
    slice?_eq_some_iff.2 ⟨before, rest', h', rfl, (Text.size_append before inside).symm⟩⟩

/-- Spans of a document that follow each other leave gaps between them.
    `hfirst` and `hapart` say that they follow each other and the place
    `before` ends at; the induction is on the spans. -/
theorem exists_gaps {document before rest : Text} {spans : List Span}
    (hdocument : document = before ++ rest) (hspans : ∀ span ∈ spans, (span.slice? document).isSome)
    (hfirst : ∀ span ∈ spans, before.size ≤ span.start)
    (hapart : spans.Pairwise fun a b => a.stop ≤ b.start) :
    ∃ gaps, (between before.size document.size spans).mapM (slice? · document) = some gaps := by
  induction spans generalizing before rest with
  | nil =>
    have hsize : before.size ≤ document.size := by
      rw [hdocument, Text.size_append]
      exact Nat.le_add_right _ _
    obtain ⟨gap, hgap⟩ := exists_slice hdocument (List.append_nil document).symm hsize
    exact ⟨[gap], by simp [between, hgap]⟩
  | cons span spans ih =>
    obtain ⟨hspan, hspans⟩ := List.forall_mem_cons.1 hspans
    obtain ⟨hbehind, hapart⟩ := List.pairwise_cons.1 hapart
    obtain ⟨inside, hinside⟩ := Option.isSome_iff_exists.1 hspan
    obtain ⟨front, back, hcut, hstart, hstop⟩ := slice?_eq_some_iff.1 hinside
    have hle : before.size ≤ front.size := hstart ▸ hfirst span List.mem_cons_self
    obtain ⟨gap, hgap⟩ :=
      exists_slice hdocument (hcut.trans (List.append_assoc front inside back)) hle
    have hsize : (front ++ inside).size = span.stop := (Text.size_append front inside).trans hstop
    obtain ⟨gaps, hgaps⟩ := ih hcut hspans (fun other hother => hsize ▸ hbehind other hother) hapart
    rw [hsize] at hgaps
    rw [hstart] at hgap
    exact ⟨gap :: gaps, by simp [between, hgap, hgaps]⟩

end Span

namespace Edit

/-- Two edits that start at different places and of which one ends at or before
    the start of the other. An edit without length may stand at the end of
    another, but two may not stand at one place, where their order would
    matter. -/
def Apart (a b : Edit) : Prop :=
  a.span.start ≠ b.span.start ∧ (a.span.stop ≤ b.span.start ∨ b.span.stop ≤ a.span.start)
deriving Decidable

/-- Lying apart does not depend on the order of the two. -/
theorem Apart.symm {a b : Edit} (h : Apart a b) : Apart b a :=
  ⟨h.1.symm, h.2.symm⟩

section

variable {document : Text} {edits : List Edit}

theorem start_le_stop_of_slice? {span : Span} (h : (span.slice? document).isSome) :
    span.start ≤ span.stop := by
  obtain ⟨inside, hinside⟩ := Option.isSome_iff_exists.1 h
  obtain ⟨before, after, -, hstart, hstop⟩ := Span.slice?_eq_some_iff.1 hinside
  omega

/-- Edits that lie apart follow each other in one order. Sorted by their
    starts, each ends before the next one starts, since the other way round it
    would have to end before its own start. -/
theorem exists_ascending (hspans : ∀ edit ∈ edits, (edit.span.slice? document).isSome)
    (hapart : edits.Pairwise Apart) : ∃ ascending, edits.Perm ascending ∧
      (ascending.Pairwise fun a b => a.span.start < b.span.start) ∧
      ascending.Pairwise fun a b => a.span.stop ≤ b.span.start := by
  have hperm : edits.Perm (lastFirst edits).reverse :=
    (List.mergeSort_perm edits _).symm.trans (List.reverse_perm _).symm
  have happart : (lastFirst edits).reverse.Pairwise Apart := hapart.perm hperm Apart.symm
  have hsorted := List.pairwise_reverse.2 (pairwise_lastFirst edits)
  have hascending := hsorted.imp₂ (fun _ _ hle hapart => Nat.lt_of_le_of_ne hle hapart.1) happart
  refine ⟨(lastFirst edits).reverse, hperm, hascending, ?_⟩
  rw [List.pairwise_iff_forall_sublist] at happart hascending ⊢
  intro a b hsub
  have hb : b ∈ edits := hperm.mem_iff.2 (hsub.subset (by simp))
  have hforward := start_le_stop_of_slice? (hspans b hb)
  have hlt := hascending hsub
  rcases (happart hsub).2 with hstop | hstop
  · exact hstop
  · omega

theorem exists_mapM_of_forall {spans : List Span}
    (h : ∀ span ∈ spans, (span.slice? document).isSome) :
    ∃ insides, spans.mapM (Span.slice? · document) = some insides := by
  induction spans with
  | nil => exact ⟨[], rfl⟩
  | cons span spans ih =>
    obtain ⟨hspan, hspans⟩ := List.forall_mem_cons.1 h
    obtain ⟨inside, hinside⟩ := Option.isSome_iff_exists.1 hspan
    obtain ⟨insides, hinsides⟩ := ih hspans
    exact ⟨inside :: insides, by simp [hinside, hinsides]⟩

/-- A text that stands in a span already changes nothing there. -/
theorem replace?_self {span : Span} {inside : Text} (h : span.slice? document = some inside) :
    replace? document ⟨span, inside⟩ = some document := by
  obtain ⟨before, after, rfl, hstart, hstop⟩ := Span.slice?_eq_some_iff.1 h
  have hspan : span = ⟨before.size, before.size + inside.size⟩ := by
    rw [hstop, hstart]
  rw [hspan, replace?_append]

/-- Putting the texts that stand in the spans back into them leaves the
    document as it is. Such edits have the same spans, so the description of
    what edits do tells what the document itself is made of. -/
theorem exists_unchanging {insides : List Text}
    (h : (edits.map Edit.span).mapM (Span.slice? · document) = some insides) :
    ∃ same : List Edit, same.map Edit.span = edits.map Edit.span ∧ same.map Edit.text = insides ∧
      same.reverse.foldlM replace? document = some document := by
  induction edits generalizing insides with
  | nil =>
    obtain rfl : [] = insides := by simpa using h
    exact ⟨[], rfl, rfl, rfl⟩
  | cons edit edits ih =>
    simp only [List.map_cons, List.mapM_cons, Option.bind_eq_bind, Option.bind_eq_some_iff,
      Option.pure_def, Option.some.injEq] at h
    obtain ⟨inside, hinside, others, hothers, rfl⟩ := h
    obtain ⟨same, hspans, htexts, hsame⟩ := ih hothers
    refine ⟨⟨edit.span, inside⟩ :: same, by rw [List.map_cons, List.map_cons, hspans],
      by rw [List.map_cons, htexts], ?_⟩
    rw [List.reverse_cons, List.foldlM_append, hsame]
    simp [replace?_self hinside]

/-- Edits whose spans are texts of the document, start at different places and
    do not overlap put their texts in the places of these, in whatever order
    they are given: the document is the gaps between the spans with what stands
    in the spans, and what becomes of it is the same gaps with the texts of the
    edits. The order from first to last is found by `exists_ascending` and is
    the same for every order given. -/
theorem applyAll?_of_apart (hspans : ∀ edit ∈ edits, (edit.span.slice? document).isSome)
    (hapart : edits.Pairwise Apart) :
    ∃ ascending gaps insides, edits.Perm ascending ∧
      (ascending.Pairwise fun a b => a.span.start < b.span.start) ∧
      Span.gaps? document (ascending.map Edit.span) = some gaps ∧
      (ascending.map Edit.span).mapM (Span.slice? · document) = some insides ∧
      Text.interleave gaps insides = document ∧
      ∀ order, order.Perm edits → keepClear order = true ∧
        applyAll? order document = some (Text.interleave gaps (ascending.map Edit.text)) := by
  obtain ⟨ascending, hperm, hascending, hclear⟩ := exists_ascending hspans hapart
  have hslices : ∀ span ∈ ascending.map Edit.span, (span.slice? document).isSome := by
    intro span hspan
    obtain ⟨edit, hedit, rfl⟩ := List.mem_map.1 hspan
    exact hspans edit (hperm.mem_iff.2 hedit)
  have hforward : ∀ span ∈ ascending.map Edit.span, span.start ≤ span.stop :=
    fun span hspan => start_le_stop_of_slice? (hslices span hspan)
  obtain ⟨gaps, hgaps⟩ := Span.exists_gaps (List.nil_append document).symm hslices
    (fun span _ => Nat.zero_le span.start) (List.pairwise_map.2 hclear)
  obtain ⟨insides, hinsides⟩ := exists_mapM_of_forall hslices
  obtain ⟨same, hsame, htexts, hunchanged⟩ := exists_unchanging hinsides
  have hdocument := foldlM_replace?_reverse (List.nil_append document).symm
    (fun edit hedit => hforward _ (hsame ▸ List.mem_map_of_mem hedit)) (hsame ▸ hgaps)
  rw [hunchanged, htexts, List.nil_append, Option.some.injEq] at hdocument
  refine ⟨ascending, gaps, insides, hperm, hascending, hgaps, hinsides, hdocument.symm, ?_⟩
  intro order horder
  exact ⟨keepClear_of_ascending (horder.trans hperm) hascending hclear,
    applyAll?_of_ascending (horder.trans hperm) hascending (List.forall_mem_map.1 hforward) hgaps⟩

end

/-- Two neighbouring spans and an insertion, the first place given last. One
    span holds a character of two bytes, and the insertion stands at the end of
    the document. -/
theorem applyAll?_of_apart_insertion :
    ∃ ascending gaps insides,
      [⟨⟨4, 4⟩, ['c']⟩, ⟨⟨1, 3⟩, []⟩, ⟨⟨0, 1⟩, ['x', 'y']⟩].Perm ascending ∧
      (ascending.Pairwise fun a b => a.span.start < b.span.start) ∧
      Span.gaps? ['a', 'é', 'b'] (ascending.map Edit.span) = some gaps ∧
      (ascending.map Edit.span).mapM (Span.slice? · ['a', 'é', 'b']) = some insides ∧
      Text.interleave gaps insides = ['a', 'é', 'b'] ∧
      ∀ order, order.Perm [⟨⟨4, 4⟩, ['c']⟩, ⟨⟨1, 3⟩, []⟩, ⟨⟨0, 1⟩, ['x', 'y']⟩] →
        keepClear order = true ∧
        applyAll? order ['a', 'é', 'b'] = some (Text.interleave gaps (ascending.map Edit.text)) :=
  applyAll?_of_apart (by decide) (by decide)

end Edit

end EntitySplit
