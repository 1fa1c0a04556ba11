import EntitySplit.Edit
import Mathlib.Algebra.GroupWithZero.Nat

namespace EntitySplit

namespace Span

/-- The spans between given ones, the first from `position` and the last up to
    `stop`. They may be empty, and where the given spans overlap they run
    backward and are spans of no text. -/
def between (position stop : Nat) : List Span → List Span
  | [] => [⟨position, stop⟩]
  | span :: spans => ⟨position, span.start⟩ :: between span.stop stop spans

/-- The texts between spans of a document, with the text before the first span
    and the text after the last; none if there is no such text. That there are
    gaps thus says that the spans are in order and end where the document can
    be cut. -/
def gaps? (document : Text) (spans : List Span) : Option (List Text) :=
  (between 0 document.size spans).mapM (slice? · document)

/-- Gaps that exist begin where the document can be cut. This holds without any
    spans as well, since the last gap then begins there. -/
theorem exists_cut_of_between {document : Text} {position stop : Nat} {spans : List Span}
    {gaps : List Text} (h : (between position stop spans).mapM (slice? · document) = some gaps) :
    ∃ before rest, document = before ++ rest ∧ before.size = position := by
  obtain ⟨first, others, hbetween⟩ :
    ∃ first others, between position stop spans = ⟨position, first⟩ :: others := by
    cases spans with
    | nil => exact ⟨stop, [], rfl⟩
    | cons span spans => exact ⟨span.start, between span.stop stop spans, rfl⟩
  simp only [hbetween, List.mapM_cons, Option.bind_eq_bind, Option.bind_eq_some_iff] at h
  obtain ⟨gap, hgap, -⟩ := h
  obtain ⟨before, after, heq, hsize, -⟩ := slice?_eq_some_iff.1 hgap
  exact ⟨before, gap ++ after, by rw [heq, List.append_assoc], hsize⟩

/-- Spans and the gaps between them share out the bytes of a document. The
    spans have to run forward, as the difference of a span's ends is zero
    otherwise. -/
theorem size_of_between {document : Text} {position stop : Nat} {spans : List Span}
    {gaps : List Text} (hgaps : (between position stop spans).mapM (slice? · document) = some gaps)
    (hforward : ∀ span ∈ spans, span.start ≤ span.stop) :
    position + Text.size gaps.flatten + (spans.map fun span => span.stop - span.start).sum =
      stop := by
  induction spans generalizing position gaps with
  | nil =>
    simp only [between, List.mapM_cons, List.mapM_nil, Option.bind_eq_bind, Option.bind_eq_some_iff,
      Option.pure_def, Option.some.injEq] at hgaps
    obtain ⟨gap, hgap, -, rfl, rfl⟩ := hgaps
    obtain ⟨before, after, -, hstart, hstop⟩ := slice?_eq_some_iff.1 hgap
    rw [List.flatten_singleton, List.map_nil, List.sum_nil]
    omega
  | cons span spans ih =>
    simp only [between, List.mapM_cons, Option.bind_eq_bind, Option.bind_eq_some_iff,
      Option.pure_def, Option.some.injEq] at hgaps
    obtain ⟨gap, hgap, others, hothers, rfl⟩ := hgaps
    obtain ⟨before, after, -, hstart, hstop⟩ := slice?_eq_some_iff.1 hgap
    have hle := hforward span List.mem_cons_self
    have hrest := ih hothers fun other hother => hforward other (List.mem_cons_of_mem _ hother)
    rw [List.flatten_cons, Text.size_append, List.map_cons, List.sum_cons]
    omega

end Span

namespace Text

/-- Gaps and the texts between them in turn, beginning with a gap. There is one
    gap more than there are texts. -/
def interleave : (gaps texts : List Text) → Text
  | gap :: gaps, text :: texts => gap ++ text ++ interleave gaps texts
  | gaps, _ => gaps.flatten

/-- With empty texts only the gaps are left, which is a document with its spans
    taken out. -/
theorem interleave_of_forall_eq_nil {gaps texts : List Text} (h : ∀ text ∈ texts, text = []) :
    interleave gaps texts = gaps.flatten := by
  induction texts generalizing gaps with
  | nil => cases gaps <;> rfl
  | cons text texts ih =>
    cases gaps with
    | nil => rfl
    | cons gap gaps =>
      have htext : text = [] := h text List.mem_cons_self
      rw [interleave, htext, ih fun other hother => h other (List.mem_cons_of_mem _ hother),
        List.append_nil, List.flatten_cons]

end Text

namespace Edit

/-- Of two edits the one that starts later is made first, and it then keeps its
    place, because what changes afterwards stands before it. -/
theorem pairwise_lastFirst (edits : List Edit) :
    (lastFirst edits).Pairwise fun a b => b.span.start ≤ a.span.start := by
  have h : (lastFirst edits).Pairwise fun a b => decide (b.span.start ≤ a.span.start) = true := by
    apply List.pairwise_mergeSort
    · intro a b c hab hbc
      exact decide_eq_true (Nat.le_trans (of_decide_eq_true hbc) (of_decide_eq_true hab))
    · intro a b
      rw [Bool.or_eq_true, decide_eq_true_eq, decide_eq_true_eq]
      exact Nat.le_total _ _
  exact h.imp of_decide_eq_true

/-- Edits that start at different places are made in the order from the last
    place to the first. With equal places the sorting would keep the order
    given, and the order of making would depend on it. -/
theorem lastFirst_eq_reverse {edits ascending : List Edit} (hperm : edits.Perm ascending)
    (hascending : ascending.Pairwise fun a b => a.span.start < b.span.start) :
    lastFirst edits = ascending.reverse := by
  have hsorted := pairwise_lastFirst edits
  have hreverse : ascending.reverse.Pairwise fun a b => b.span.start ≤ a.span.start :=
    List.pairwise_reverse.2 (hascending.imp Nat.le_of_lt)
  have hlast : (lastFirst edits).Perm ascending.reverse :=
    (List.mergeSort_perm edits _).trans (hperm.trans (List.reverse_perm ascending).symm)
  have hinjective : ∀ a ∈ ascending, ∀ b ∈ ascending, a.span.start = b.span.start → a = b := by
    intro a ha b hb
    apply List.Pairwise.forall_of_forall_of_flip (fun _ _ _ => rfl) _ _ ha hb
    · exact hascending.imp fun hlt heq => absurd heq (Nat.ne_of_lt hlt)
    · exact hascending.imp fun hlt heq => absurd heq.symm (Nat.ne_of_lt hlt)
  apply List.Perm.eq_of_pairwise _ hsorted hreverse hlast
  intro a b ha hb hba hab
  exact hinjective a (List.mem_reverse.1 (hlast.mem_iff.1 ha)) b (List.mem_reverse.1 hb)
    (Nat.le_antisymm hab hba)

private theorem rel_of_mem_zip_tail {R : Edit → Edit → Prop} {edits : List Edit}
    (h : edits.Pairwise R)
    {pair : Edit × Edit} (hmem : pair ∈ edits.zip edits.tail) : R pair.1 pair.2 := by
  induction edits with
  | nil => simp at hmem
  | cons edit edits ih =>
    cases edits with
    | nil => simp at hmem
    | cons next edits =>
      rw [List.tail_cons, List.zip_cons_cons, List.mem_cons] at hmem
      rcases hmem with rfl | hmem
      · exact List.rel_of_pairwise_cons h List.mem_cons_self
      · exact ih h.of_cons hmem

/-- Edits of which each ends before the next one starts keep clear of each
    other, in whatever order they are given. An edit may end where the next one
    starts. -/
theorem keepClear_of_ascending {edits ascending : List Edit} (hperm : edits.Perm ascending)
    (hascending : ascending.Pairwise fun a b => a.span.start < b.span.start)
    (happart : ascending.Pairwise fun a b => a.span.stop ≤ b.span.start) :
    keepClear edits = true := by
  have hreverse := List.pairwise_reverse.2 happart
  rw [keepClear, lastFirst_eq_reverse hperm hascending, List.all_eq_true]
  intro pair hmem
  exact decide_eq_true (rel_of_mem_zip_tail hreverse hmem)

theorem replace?_append (before inside after text : Text) :
    replace? (before ++ inside ++ after) ⟨⟨before.size, before.size + inside.size⟩, text⟩ =
      some (before ++ text ++ after) := by
  have hcut : Span.cut? ⟨before.size, before.size + inside.size⟩ (before ++ inside ++ after) =
      some (before, inside, after) := Span.cut?_eq_some_iff.2 ⟨rfl, rfl, rfl⟩
  rw [replace?, hcut, Option.map_some]

/-- The edits behind a place, made from the last back to the first, leave the
    document before that place as it is. So each edit finds its own span where
    it was, whatever the edits before it have done. The induction is on the
    edits, with `before` growing by a gap and a span. -/
theorem foldlM_replace?_reverse {document before rest : Text} {edits : List Edit} {gaps : List Text}
    (hdocument : document = before ++ rest)
    (hforward : ∀ edit ∈ edits, edit.span.start ≤ edit.span.stop)
    (hgaps : (Span.between before.size document.size (edits.map Edit.span)).mapM
      (Span.slice? · document) = some gaps) :
    edits.reverse.foldlM replace? document =
      some (before ++ Text.interleave gaps (edits.map Edit.text)) := by
  induction edits generalizing before rest gaps with
  | nil =>
    simp only [List.map_nil, Span.between, List.mapM_cons, List.mapM_nil, Option.bind_eq_bind,
      Option.bind_eq_some_iff, Option.pure_def, Option.some.injEq] at hgaps
    obtain ⟨gap, hgap, -, rfl, rfl⟩ := hgaps
    obtain ⟨head, tail, heq, hhead, hstop⟩ := Span.slice?_eq_some_iff.1 hgap
    have htail : tail = [] := by
      apply Text.eq_nil_of_size_eq_zero
      have hsize := congrArg Text.size heq
      simp only [Text.size_append] at hsize
      omega
    rw [htail, List.append_nil] at heq
    have hcut := (Text.append_inj_of_size (hdocument.symm.trans heq) hhead.symm).1
    simp [Text.interleave, hcut, heq]
  | cons edit edits ih =>
    simp only [List.map_cons, Span.between, List.mapM_cons, Option.bind_eq_bind,
      Option.bind_eq_some_iff, Option.pure_def, Option.some.injEq] at hgaps
    obtain ⟨gap, hgap, others, hothers, rfl⟩ := hgaps
    obtain ⟨head, tail, heq, hhead, hstart⟩ := Span.slice?_eq_some_iff.1 hgap
    have hbefore : head = before := by
      rw [List.append_assoc] at heq
      exact (Text.append_inj_of_size (heq.symm.trans hdocument) hhead).1
    subst hbefore
    -- The gap and what the span holds are cut off in front; the other edits stand behind both.
    have hle : edit.span.start ≤ edit.span.stop := hforward edit List.mem_cons_self
    obtain ⟨through, after, hthrough, hstop⟩ := Span.exists_cut_of_between hothers
    obtain ⟨inside, rfl⟩ := Text.exists_append_of_size_le (heq.symm.trans hthrough) (by
      rw [Text.size_append]
      omega)
    rw [← hstop] at hothers
    have hrest :=
      ih hthrough (fun other hother => hforward other (List.mem_cons_of_mem _ hother)) hothers
    have hspan : edit.span = ⟨(head ++ gap).size, (head ++ gap).size + inside.size⟩ := by
      rw [← Text.size_append (head ++ gap), hstop, Text.size_append, hstart]
    rw [List.reverse_cons, List.foldlM_append, hrest]
    simp only [List.foldlM_cons, List.foldlM_nil, Option.bind_eq_bind, Option.bind_some]
    rw [show edit = ⟨edit.span, edit.text⟩ from rfl, hspan, replace?_append]
    simp [Text.interleave]

/-- Edits at ascending places leave the gaps between their spans and fill the
    spans with their texts. `hgaps` supplies that the spans do not overlap and
    can be cut out. -/
theorem applyAll?_of_ascending {document : Text} {edits ascending : List Edit} {gaps : List Text}
    (hperm : edits.Perm ascending)
    (hascending : ascending.Pairwise fun a b => a.span.start < b.span.start)
    (hforward : ∀ edit ∈ ascending, edit.span.start ≤ edit.span.stop)
    (hgaps : Span.gaps? document (ascending.map Edit.span) = some gaps) :
    applyAll? edits document = some (Text.interleave gaps (ascending.map Edit.text)) := by
  rw [applyAll?, lastFirst_eq_reverse hperm hascending]
  exact foldlM_replace?_reverse (List.nil_append document).symm hforward hgaps

end Edit

end EntitySplit
