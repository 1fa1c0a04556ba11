import EntitySplit.Proofs.Block.Placement
import EntitySplit.Proofs.Edit.Interleave
import EntitySplit.Reference
import EntitySplit.Text.Line

namespace EntitySplit

namespace Reference

/-- Whatever the settings, there is one edit a block, and it takes out the
    removal of the block. So the gaps between the edits do not hang on the
    mode. -/
theorem map_span_edits (settings : Settings) (lineEnding : Text) (blocks : List Block) :
    (edits settings lineEnding blocks).map Edit.span = blocks.map Block.removal := by
  unfold edits
  split <;> simp

/-- The edits of a document come in the order of its blocks, and none reaches
    into the next. Nothing is asked of the receiver or of the document. -/
theorem pairwise_edits_locate (settings : Settings) (lineEnding receiver document : Text) :
    (edits settings lineEnding (Block.locate receiver document)).Pairwise fun a b =>
      a.span.start < b.span.start ∧ a.span.stop ≤ b.span.start := by
  have h := Block.pairwise_removal_locate receiver document
  rw [← map_span_edits settings lineEnding] at h
  exact List.pairwise_map.1 h

/-- The blocks of a document follow each other in it and lie apart, call sites
    included. So no edit that puts something in the place of a block reaches
    into another one. This holds for every receiver, be it empty or no word at
    all. -/
theorem locate_apart (receiver document : Text) :
    (∀ block ∈ Block.locate receiver document, block.FitsIn document) ∧
    (Block.locate receiver document).Pairwise (fun a b =>
      a.outer.start < b.outer.start ∧ a.outer.stop ≤ b.removal.start) ∧
    ∀ settings lineEnding,
      Edit.keepClear (edits settings lineEnding (Block.locate receiver document)) = true := by
  refine ⟨fun block => Block.fitsIn_of_mem_locate, Block.pairwise_locate receiver document, ?_⟩
  intro settings lineEnding
  have h := pairwise_edits_locate settings lineEnding receiver document
  exact Edit.keepClear_of_ascending (List.Perm.refl _) (h.imp And.left) (h.imp And.right)

/-- The gaps that the removals leave are the leads of the blocks and the tail
    of the document. The text before the excerpts is a parameter, so that the
    induction can move along the document. -/
theorem mapM_between_ofExcerpts {document before tail : Text} {excerpts : List Block.Excerpt}
    (hdocument : document = before ++ (excerpts.flatMap Block.Excerpt.text ++ tail)) :
    (Span.between before.size document.size
      ((Block.ofExcerpts before.size excerpts).map Block.removal)).mapM (Span.slice? · document) =
      some (excerpts.map Block.Excerpt.lead ++ [tail]) := by
  induction excerpts generalizing before with
  | nil =>
    have htail : Span.slice? ⟨before.size, document.size⟩ document = some tail :=
      Span.slice?_eq_some_iff.2 ⟨before, [], by simp [hdocument], rfl, by simp [hdocument]⟩
    simp [Block.ofExcerpts, Span.between, htail]
  | cons excerpt excerpts ih =>
    rw [List.flatMap_cons, List.append_assoc, ← List.append_assoc before] at hdocument
    have hlead :
      Span.slice? ⟨before.size, before.size + excerpt.lead.size⟩ document = some excerpt.lead :=
      Span.slice?_eq_some_iff.2
        ⟨before, _, by rw [hdocument, Block.Excerpt.text]; simp; rfl, rfl, rfl⟩
    have hstop :
      (Block.ofExcerpt before.size excerpt).removal.stop = (before ++ excerpt.text).size := by
      simp [Block.ofExcerpt, Block.Excerpt.text, Nat.add_assoc]
    have hrest := ih hdocument
    rw [Block.ofExcerpts_cons, List.map_cons, Span.between, hstop, List.mapM_cons,
      ← Text.size_append, hrest]
    simp [Block.ofExcerpt, hlead]

/-- The removals of a document leave the leads of its excerpts and its tail, so
    cutting out the removals never fails. -/
theorem gaps?_locate (receiver document : Text) :
    Span.gaps? document ((Block.locate receiver document).map Block.removal) =
      some ((Block.dissect receiver document).excerpts.map Block.Excerpt.lead ++
        [(Block.dissect receiver document).tail]) := by
  have hdocument : document = [] ++ (Block.dissect receiver document).text :=
    (Block.text_dissect receiver document).symm
  exact mapM_between_ofExcerpts hdocument

/-- The edits put their texts between the leads of the blocks and the tail of
    the document. That edits can be applied is part of this: it needs only that
    the blocks lie apart. -/
theorem applyAll?_edits_eq_interleave (settings : Settings) (lineEnding receiver document : Text) :
    Edit.applyAll? (edits settings lineEnding (Block.locate receiver document)) document =
      some (Text.interleave ((Block.dissect receiver document).excerpts.map Block.Excerpt.lead ++
        [(Block.dissect receiver document).tail])
        ((edits settings lineEnding (Block.locate receiver document)).map Edit.text)) := by
  have hspans := map_span_edits settings lineEnding (Block.locate receiver document)
  have hascending := pairwise_edits_locate settings lineEnding receiver document
  apply Edit.applyAll?_of_ascending (List.Perm.refl _) (hascending.imp And.left)
  · intro edit hedit
    obtain ⟨block, hmem, hspan⟩ := List.mem_map.1 (hspans ▸ List.mem_map_of_mem hedit)
    rw [← hspan]
    exact Nat.le_of_lt (Block.fitsIn_of_mem_locate hmem).removal_start_lt_stop
  · rw [hspans, gaps?_locate]

/-- What becomes of a document whose removals leave `first` and then one gap a
    block. It is told without the positions of the blocks. -/
def rewritten (settings : Settings) (lineEnding first : Text) (gaps : List Text)
    (blocks : List Block) : Text :=
  match settings.referenceMode, blocks with
  | .inPlace, blocks =>
    Text.interleave (first :: gaps)
      (blocks.map fun block => block.callSite ++ statement settings block)
  | .none, _ => first ++ gaps.flatten
  | .aggregate, [] => first
  | .aggregate, leader :: others =>
    first ++ leader.callSite ++
      (lineEnding ++ leader.indent).intercalate
        ((leader :: others).map (statement settings)) ++ gaps.flatten

/-- The gaps with the texts of the edits between them make up the rewritten
    document in each of the three modes. There must be one gap a block, as
    otherwise gaps or texts would be left over. -/
theorem interleave_edits (settings : Settings) (lineEnding first : Text) {gaps : List Text}
    {blocks : List Block} (hlength : gaps.length = blocks.length) :
    Text.interleave (first :: gaps) ((edits settings lineEnding blocks).map Edit.text) =
      rewritten settings lineEnding first gaps blocks := by
  cases hmode : settings.referenceMode with
  | inPlace =>
    simp only [edits, rewritten, hmode, List.map_map]
    rfl
  | none =>
    simp only [edits, rewritten, hmode, List.map_map]
    rw [Text.interleave_of_forall_eq_nil (by simp), List.flatten_cons]
  | aggregate =>
    cases blocks with
    | nil =>
      obtain rfl := List.length_eq_zero_iff.1 hlength
      simp [edits, rewritten, hmode, Text.interleave]
    | cons leader others =>
      simp only [edits, rewritten, hmode, List.map_cons, List.map_map]
      rw [Text.interleave, Text.interleave_of_forall_eq_nil (by simp)]
      simp only [List.append_assoc]

/-- Rewriting a document never fails. It leaves every gap between the removals
    as it is and in its place, puts the call site and the reference of each
    block in the place of the block, or all references at the first block, or
    nothing; and the gaps are what the removals leave of the bytes of the
    document. There is no premise: not even the receiver needs to be a word. -/
theorem applyAll?_edits_locate (settings : Settings) (receiver document : Text) :
    ∃ first gaps,
      Span.gaps? document ((Block.locate receiver document).map Block.removal) =
        some (first :: gaps) ∧
      gaps.length = (Block.locate receiver document).length ∧
      Edit.applyAll?
        (edits settings (Text.lineEnding document) (Block.locate receiver document)) document =
        some (rewritten settings (Text.lineEnding document) first gaps
          (Block.locate receiver document)) ∧
      Text.size (first ++ gaps.flatten) +
        ((Block.locate receiver document).map fun block =>
          block.removal.stop - block.removal.start).sum =
        document.size := by
  have hgaps := gaps?_locate receiver document
  have hlength :
    (Block.locate receiver document).length = (Block.dissect receiver document).excerpts.length :=
    Block.length_ofExcerpts 0 _
  have hforward :
    ∀ span ∈ (Block.locate receiver document).map Block.removal, span.start ≤ span.stop := by
    intro span hspan
    obtain ⟨block, hmem, rfl⟩ := List.mem_map.1 hspan
    exact Nat.le_of_lt (Block.fitsIn_of_mem_locate hmem).removal_start_lt_stop
  have hascending := pairwise_edits_locate settings (Text.lineEnding document) receiver document
  generalize Block.locate receiver document = blocks at hgaps hlength hforward hascending
  generalize (Block.dissect receiver document).excerpts = excerpts at hgaps hlength
  obtain ⟨first, gaps, hcons⟩ : ∃ first gaps,
      excerpts.map Block.Excerpt.lead ++ [(Block.dissect receiver document).tail] = first :: gaps :=
    List.exists_cons_of_ne_nil (by simp)
  have hcount : gaps.length = blocks.length := by
    have h := congrArg List.length hcons
    simp only [List.length_append, List.length_map, List.length_cons, List.length_nil] at h
    omega
  rw [hcons] at hgaps
  refine ⟨first, gaps, hgaps, hcount, ?_, ?_⟩
  · rw [← interleave_edits settings (Text.lineEnding document) first hcount]
    have hspans := map_span_edits settings (Text.lineEnding document) blocks
    apply Edit.applyAll?_of_ascending (List.Perm.refl _) (hascending.imp And.left)
    · intro edit hedit
      exact hforward edit.span (hspans ▸ List.mem_map_of_mem hedit)
    · rw [hspans, hgaps]
  · have hsize := Span.size_of_between hgaps hforward
    rw [List.map_map, List.flatten_cons, Nat.zero_add] at hsize
    exact hsize

end Reference

end EntitySplit
