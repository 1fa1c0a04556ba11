import EntitySplit.Block.Locate
import EntitySplit.Proofs.Block.CallSite

namespace EntitySplit

namespace Block

/-- A block stands between two pieces of a document, `lead` before its call
    site and `rest` after its `;`: it starts as blocks start, and the reading
    of its content ends where `rest` begins. -/
structure StandsBetween (receiver document : Text) (block : Block) (lead statement rest : Text) :
    Prop where
  document_eq : document = lead ++ block.callSite ++ statement ++ rest
  removal_start : block.removal.start = lead.size
  outer_start : block.outer.start = (lead ++ block.callSite).size
  outer_stop : block.outer.stop = (lead ++ block.callSite ++ statement).size
  removal_stop : block.removal.stop = block.outer.stop
  callSite_cut : cutCallSite true (lead ++ block.callSite).reverse = (lead, block.callSite)
  reads : ∃ inner,
    afterStart? receiver (lead ++ block.callSite).getLast? (statement ++ rest) = some inner ∧
    Content.read? ('<' :: inner) = some (block.content, rest)

/-- What the search has passed before the text that it keeps: nothing at the
    start of the document, and later a text through the `;` of a block. This is
    the invariant of the search. -/
def Passed : (atStart : Bool) → (passed : Text) → Prop
  | true, passed => passed = []
  | false, passed => ∃ head, passed = head ++ [';']

/-- The cut before a statement is the same with all that has been passed before
    it. Only this allows the search to forget what comes before the last block. -/
theorem cutCallSite_passed {atStart : Bool} {passed : Text} (hpassed : Passed atStart passed)
    (kept : Text) :
    cutCallSite true (passed ++ kept.reverse).reverse =
      (passed ++ (cutCallSite atStart kept).1, (cutCallSite atStart kept).2) := by
  cases atStart with
  | true =>
    obtain rfl : passed = [] := hpassed
    simp
  | false =>
    obtain ⟨head, rfl⟩ := hpassed
    have h := cutCallSite_append_semicolon kept head.reverse
    simpa using h

/-- Only whether a word runs into the start matters of the character before it,
    and no word ends with `;`. So a start behind a block is found without the
    block. -/
theorem afterStart?_passed {atStart : Bool} {passed : Text} (hpassed : Passed atStart passed)
    (receiver kept t : Text) :
    afterStart? receiver (passed ++ kept.reverse).getLast? t =
      afterStart? receiver kept.head? t := by
  cases kept with
  | nil =>
    cases atStart with
    | true =>
      obtain rfl : passed = [] := hpassed
      rfl
    | false =>
      obtain ⟨head, rfl⟩ := hpassed
      have hsemicolon : Text.isWord ';' = false := by decide
      simp [afterStart?, hsemicolon]
  | cons c kept => simp

theorem upTo_eq_of_append {t head rest : Text} (h : t = head ++ rest) : upTo rest t = head := by
  rw [h, upTo_append]

/-- A start with the content behind it makes a statement, which goes on beyond
    its `<` and ends with its `;`. The receiver plays no part in this. -/
theorem exists_statement {receiver t inner rest : Text} {previous : Option Char} {content : Content}
    (hstart : afterStart? receiver previous t = some inner)
    (hcontent : Content.read? ('<' :: inner) = some (content, rest)) :
    ∃ head body, t = head ++ '<' :: body ++ [';'] ++ rest ∧ inner = body ++ ';' :: rest := by
  obtain ⟨head, rfl⟩ := exists_append_of_afterStart? hstart
  obtain ⟨body, hbody⟩ := Content.exists_append_of_read? hcontent
  obtain rfl := (List.cons.inj hbody).2
  exact ⟨head, body, by simp, rfl⟩

/-- The block of the excerpt that begins at a position. Its spans are counted
    in bytes from there. -/
def ofExcerpt (position : Nat) (excerpt : Excerpt) : Block where
  outer := ⟨position + excerpt.lead.size + excerpt.callSite.size,
    position + excerpt.lead.size + excerpt.callSite.size + excerpt.statement.size⟩
  removal := ⟨position + excerpt.lead.size,
    position + excerpt.lead.size + excerpt.callSite.size + excerpt.statement.size⟩
  callSite := excerpt.callSite
  content := excerpt.content

theorem ofExcerpts_cons (position : Nat) (excerpt : Excerpt) (excerpts : List Excerpt) :
    ofExcerpts position (excerpt :: excerpts) =
      ofExcerpt position excerpt :: ofExcerpts (position + excerpt.text.size) excerpts := by
  simp [ofExcerpts, ofExcerpt, Excerpt.text, Nat.add_assoc]

theorem length_ofExcerpts (position : Nat) (excerpts : List Excerpt) :
    (ofExcerpts position excerpts).length = excerpts.length := by
  induction excerpts generalizing position with
  | nil => rfl
  | cons excerpt excerpts ih => rw [ofExcerpts_cons, List.length_cons, ih, List.length_cons]

/-- The block found at one step of the search stands in the document. What the
    search has passed and what it keeps make up the text before the start. -/
theorem standsBetween_ofExcerpt {receiver document passed kept statement rest inner : Text}
    {atStart : Bool} {content : Content}
    (hdocument : document = passed ++ kept.reverse ++ (statement ++ rest))
    (hpassed : Passed atStart passed)
    (hstart : afterStart? receiver kept.head? (statement ++ rest) = some inner)
    (hcontent : Content.read? ('<' :: inner) = some (content, rest)) :
    StandsBetween receiver document
      (ofExcerpt passed.size
        ⟨(cutCallSite atStart kept).1, (cutCallSite atStart kept).2, statement, content⟩)
      (passed ++ (cutCallSite atStart kept).1) statement rest := by
  have hcut := cutCallSite_passed hpassed kept
  have hsite :
    passed ++ (cutCallSite atStart kept).1 ++ (cutCallSite atStart kept).2 =
      passed ++ kept.reverse := by
    rw [List.append_assoc, cutCallSite_append]
  generalize cutCallSite atStart kept = site at hcut hsite
  constructor
  · rw [hdocument, ofExcerpt, hsite]
    simp only [List.append_assoc]
  · exact (Text.size_append _ _).symm
  · rw [Text.size_append, Text.size_append, ofExcerpt]
  · rw [Text.size_append, Text.size_append, Text.size_append, ofExcerpt]
  · rfl
  · rw [ofExcerpt, hsite, hcut]
  · refine ⟨inner, ?_, hcontent⟩
    rw [ofExcerpt, hsite, afterStart?_passed hpassed, hstart]

/-- Every block that the search finds stands in the document, by induction
    along the search: each step keeps `Passed`, and the document is what has
    been passed, what is kept and what is left. -/
theorem exists_standsBetween_of_mem_ofExcerpts {receiver document passed kept t : Text}
    {atStart : Bool} {block : Block} (hdocument : document = passed ++ kept.reverse ++ t)
    (hpassed : Passed atStart passed)
    (hmem : block ∈ ofExcerpts passed.size (dissectFrom receiver atStart kept t).excerpts) :
    ∃ lead statement rest, StandsBetween receiver document block lead statement rest := by
  fun_induction dissectFrom receiver atStart kept t generalizing passed with
  | case1 => simp [ofExcerpts] at hmem
  | case2 atStart kept c t hstart ih => exact ih (by simp [hdocument]) hpassed hmem
  | case3 atStart kept c t inner hstart hcontent ih =>
    obtain ⟨head, hhead⟩ := exists_append_of_afterStart? hstart
    have hstatement : upTo inner (c :: t) = head ++ ['<'] := upTo_eq_of_append (by simp [hhead])
    rw [hstatement] at ih hmem
    exact ih (by simp [hdocument, hhead]) hpassed hmem
  | case4 atStart kept c t inner hstart content rest hcontent site others excerpt =>
    rename_i ih
    obtain ⟨head, body, hstatement, -⟩ := exists_statement hstart hcontent
    have hexcerpt : excerpt = ⟨site.1, site.2, head ++ '<' :: body ++ [';'], content⟩ := by
      simp only [excerpt, upTo_eq_of_append hstatement]
    rw [hstatement] at hdocument hstart
    rw [ofExcerpts_cons, hexcerpt, List.mem_cons] at hmem
    rcases hmem with rfl | hmem
    · exact ⟨_, _, _, standsBetween_ofExcerpt hdocument hpassed hstart hcontent⟩
    · rw [← Text.size_append] at hmem
      refine ih ?_ ⟨passed ++ site.1 ++ site.2 ++ (head ++ '<' :: body), ?_⟩ hmem
      · rw [hdocument, Excerpt.text, cutCallSite_append]
        simp
      · simp [Excerpt.text]

/-- Each located block stands in the document between two of its pieces. What
    is proved of single blocks starts from here. -/
theorem exists_standsBetween {receiver document : Text} {block : Block}
    (hmem : block ∈ locate receiver document) :
    ∃ lead statement rest, StandsBetween receiver document block lead statement rest := by
  have hpassed : Passed true [] := rfl
  exact exists_standsBetween_of_mem_ofExcerpts (List.nil_append document).symm hpassed hmem

/-- No block of some excerpts begins before the position at which the excerpts
    do. -/
theorem le_removal_start_of_mem_ofExcerpts {position : Nat} {excerpts : List Excerpt}
    {block : Block}
    (hmem : block ∈ ofExcerpts position excerpts) : position ≤ block.removal.start := by
  induction excerpts generalizing position with
  | nil => simp [ofExcerpts] at hmem
  | cons excerpt excerpts ih =>
    rw [ofExcerpts_cons, List.mem_cons] at hmem
    rcases hmem with rfl | hmem
    · exact Nat.le_add_right _ _
    · exact Nat.le_trans (Nat.le_add_right _ _) (ih hmem)

/-- Each block ends before the call site of any later one begins. This follows
    from the sizes of the excerpts and needs no document. -/
theorem pairwise_ofExcerpts (position : Nat) (excerpts : List Excerpt) :
    (ofExcerpts position excerpts).Pairwise fun a b => a.outer.stop ≤ b.removal.start := by
  induction excerpts generalizing position with
  | nil => exact List.Pairwise.nil
  | cons excerpt excerpts ih =>
    rw [ofExcerpts_cons, List.pairwise_cons]
    refine ⟨?_, ih _⟩
    intro block hmem
    have hle := le_removal_start_of_mem_ofExcerpts hmem
    simp only [Excerpt.text, Text.size_append] at hle
    simp only [ofExcerpt]
    omega

/-- A block lies in a document: its spans are spans of the document, the longer
    one is the call site and the statement, and the call site is of the form
    that call sites have. A cut is possible at each end of the spans. -/
structure FitsIn (document : Text) (block : Block) : Prop where
  removal_start_le : block.removal.start ≤ block.outer.start
  outer_start_lt : block.outer.start < block.outer.stop
  outer_stop_eq : block.outer.stop = block.removal.stop
  removal_stop_le : block.removal.stop ≤ document.size
  can_cut : ∀ position ∈ [block.removal.start, block.outer.start, block.outer.stop],
    (Text.splitAt? document position).isSome
  slices : ∃ statement, block.outer.slice? document = some statement ∧
    block.removal.slice? document = some (block.callSite ++ statement)
  callSite_form :
    ∃ before after, Text.splitAt? document block.removal.start = some (before, after) ∧
      IsCallSite before block.callSite

theorem StandsBetween.statement_ne_nil {receiver document lead statement rest : Text}
    {block : Block}
    (h : StandsBetween receiver document block lead statement rest) : statement ≠ [] := by
  obtain ⟨inner, hstart, hcontent⟩ := h.reads
  obtain ⟨head, body, hstatement, -⟩ := exists_statement hstart hcontent
  rw [List.append_cancel_right hstatement]
  simp

/-- A block that stands in a document lies in it, with both of its spans. Where
    the cut before it stands is told by its call site. -/
theorem StandsBetween.fitsIn {receiver document lead statement rest : Text} {block : Block}
    (h : StandsBetween receiver document block lead statement rest) : block.FitsIn document := by
  have hdocument := h.document_eq
  have hstart := h.outer_start
  have hstop := h.outer_stop
  have hremoval := h.removal_stop
  have hpositive : 0 < statement.size :=
    Nat.pos_of_ne_zero (mt Text.eq_nil_of_size_eq_zero h.statement_ne_nil)
  have hsize := congrArg Text.size hdocument
  have hlead :
    Text.splitAt? document block.removal.start = some (lead, block.callSite ++ statement ++ rest) :=
    Text.splitAt?_eq_some_iff.2 ⟨by simp [hdocument], h.removal_start.symm⟩
  have hbefore :
    Text.splitAt? document block.outer.start = some (lead ++ block.callSite, statement ++ rest) :=
    Text.splitAt?_eq_some_iff.2 ⟨by simp [hdocument], hstart.symm⟩
  have hthrough :
    Text.splitAt? document block.outer.stop = some (lead ++ block.callSite ++ statement, rest) :=
    Text.splitAt?_eq_some_iff.2 ⟨hdocument, hstop.symm⟩
  simp only [Text.size_append] at hstart hstop hsize
  constructor
  · rw [h.removal_start]
    omega
  · omega
  · exact hremoval.symm
  · omega
  · intro position hposition
    simp only [List.mem_cons, List.not_mem_nil, or_false] at hposition
    rcases hposition with rfl | rfl | rfl
    · rw [hlead, Option.isSome_some]
    · rw [hbefore, Option.isSome_some]
    · rw [hthrough, Option.isSome_some]
  · refine ⟨statement,
      Span.slice?_eq_some_iff.2 ⟨lead ++ block.callSite, rest, hdocument, h.outer_start.symm, ?_⟩,
      Span.slice?_eq_some_iff.2 ⟨lead, rest, by simp [hdocument], h.removal_start.symm, ?_⟩⟩
    · rw [hstop, Text.size_append]
    · rw [hremoval, hstop, Text.size_append, Nat.add_assoc]
  · have hsite := isCallSite_cutCallSite true (lead ++ block.callSite).reverse
    rw [h.callSite_cut] at hsite
    exact ⟨lead, _, hlead, hsite⟩

theorem FitsIn.removal_start_lt_stop {document : Text} {block : Block} (h : block.FitsIn document) :
    block.removal.start < block.removal.stop := by
  rw [← h.outer_stop_eq]
  exact Nat.lt_of_le_of_lt h.removal_start_le h.outer_start_lt

/-- Every located block lies in its document, for every receiver and every
    text. -/
theorem fitsIn_of_mem_locate {receiver document : Text} {block : Block}
    (hmem : block ∈ locate receiver document) :
    block.FitsIn document := by
  obtain ⟨lead, statement, rest, h⟩ := exists_standsBetween hmem
  exact h.fitsIn

/-- Located blocks come in the order of the document, and none reaches into the
    next one, its call site included. -/
theorem pairwise_locate (receiver document : Text) :
    (locate receiver document).Pairwise fun a b =>
      a.outer.start < b.outer.start ∧ a.outer.stop ≤ b.removal.start := by
  apply (pairwise_ofExcerpts 0 (dissect receiver document).excerpts).imp_of_mem
  intro a b ha hb hle
  have hfirst := (fitsIn_of_mem_locate ha).outer_start_lt
  have hsecond := (fitsIn_of_mem_locate hb).removal_start_le
  exact ⟨by omega, hle⟩

/-- The removals of the blocks, one a block, are spans one after the other. So
    no two edits made from them overlap. -/
theorem pairwise_removal_locate (receiver document : Text) :
    ((locate receiver document).map Block.removal).Pairwise fun a b => a.start < b.start ∧
      a.stop ≤ b.start := by
  rw [List.pairwise_map]
  apply (pairwise_locate receiver document).imp_of_mem
  intro a b ha _ hab
  have hfits := fitsIn_of_mem_locate ha
  have hlt := hfits.removal_start_lt_stop
  have hstop := hfits.outer_stop_eq
  omega

end Block

end EntitySplit
