import EntitySplit.Block.Start
import EntitySplit.Block.Content

namespace EntitySplit

namespace Block

/-- One block with the text before it. Written one after another, the three
    texts of an excerpt are the part of the document from the block before it
    to its `;`. -/
structure Excerpt where
  /-- The text since the block before, up to the call site. -/
  lead : Text
  /-- The line break and indentation before the statement, if nothing else
      stands before it on its line. -/
  callSite : Text
  /-- The statement, from the receiver through the `;`. -/
  statement : Text
  content : Content
  deriving DecidableEq, Repr

def Excerpt.text (excerpt : Excerpt) : Text :=
  excerpt.lead ++ excerpt.callSite ++ excerpt.statement

/-- A document cut at its blocks. It is what stands before each block, the
    block's call site and its statement, one block after another, and a tail;
    nothing is lost between them. -/
structure Dissection where
  excerpts : List Excerpt
  /-- The text after the last block. -/
  tail : Text
  deriving DecidableEq, Repr

def Dissection.text (dissection : Dissection) : Text :=
  dissection.excerpts.flatMap Excerpt.text ++ dissection.tail

/-- Cuts the text before a statement, whose last character comes first, at the
    line break that leads to the statement. The first line of a document has no
    line break, and a line that holds anything but indentation before the
    statement is not cut. -/
def cutCallSite (atStart : Bool) (before : Text) : Text × Text :=
  let indent := before.takeWhile Text.isIndent
  match before.dropWhile Text.isIndent with
  | '\n' :: '\r' :: rest => (rest.reverse, '\r' :: '\n' :: indent.reverse)
  | '\n' :: rest => (rest.reverse, '\n' :: indent.reverse)
  | [] => if atStart then ([], indent.reverse) else (before.reverse, [])
  | _ => (before.reverse, [])

theorem cutCallSite_append (atStart : Bool) (before : Text) :
    (cutCallSite atStart before).1 ++ (cutCallSite atStart before).2 = before.reverse := by
  have parts := List.takeWhile_append_dropWhile (p := Text.isIndent) (l := before)
  unfold cutCallSite
  generalize before.takeWhile Text.isIndent = indent at parts ⊢
  generalize before.dropWhile Text.isIndent = rest at parts ⊢
  subst parts
  dsimp only
  split
  · simp
  · simp
  · split <;> simp
  · simp

/-- The part of a text that comes before its end `rest`. -/
def upTo (rest t : Text) : Text :=
  t.take (t.length - rest.length)

theorem upTo_append (head rest : Text) : upTo rest (head ++ rest) = head := by
  simp [upTo]

/-- Cuts a text at the blocks that it holds. `kept` is the text since the last
    block, its last character first, and `atStart` tells that there was no
    block yet. After a start that no block follows the search goes on behind
    its `<`, and after a block behind its `;`. -/
def dissectFrom (receiver : Text) (atStart : Bool) (kept : Text) : Text → Dissection
  | [] => { excerpts := [], tail := kept.reverse }
  | c :: t =>
    match _hstart : afterStart? receiver kept.head? (c :: t) with
    | none => dissectFrom receiver atStart (c :: kept) t
    | some rest =>
      match _hcontent : Content.read? ('<' :: rest) with
      | none => dissectFrom receiver atStart ((upTo rest (c :: t)).reverse ++ kept) rest
      | some (content, after) =>
        let site := cutCallSite atStart kept
        let others := dissectFrom receiver false [] after
        let excerpt :=
          { lead := site.1, callSite := site.2, statement := upTo after (c :: t), content }
        { others with excerpts := excerpt :: others.excerpts }
termination_by t => t.length
decreasing_by
  · simp
  · exact length_lt_of_afterStart? _hstart
  · exact Nat.lt_trans (Content.length_lt_of_read? _hcontent) (length_lt_of_afterStart? _hstart)

/-- Cuts a document at its blocks. -/
def dissect (receiver document : Text) : Dissection :=
  dissectFrom receiver true [] document

private theorem upTo_append_self {rest t : Text} (h : ∃ head, t = head ++ rest) :
    upTo rest t ++ rest = t := by
  obtain ⟨head, rfl⟩ := h
  rw [upTo_append]

/-- The pieces of a text and what was kept are the text, by induction along the
    search. Each of its steps keeps a part of the text or puts it into an
    excerpt. -/
theorem text_dissectFrom (receiver : Text) (atStart : Bool) (kept t : Text) :
    (dissectFrom receiver atStart kept t).text = kept.reverse ++ t := by
  fun_induction dissectFrom receiver atStart kept t with
  | case1 => simp [Dissection.text]
  | case2 atStart kept c t hstart ih => simpa using ih
  | case3 atStart kept c t rest hstart hcontent ih =>
    obtain ⟨head, hhead⟩ := exists_append_of_afterStart? hstart
    rw [ih, List.reverse_append, List.reverse_reverse, List.append_assoc,
      upTo_append_self ⟨head ++ ['<'], by simp [hhead]⟩]
  | case4 atStart kept c t rest hstart content after hcontent site others excerpt ih =>
    obtain ⟨head, hhead⟩ := exists_append_of_afterStart? hstart
    obtain ⟨body, hbody⟩ := Content.exists_append_of_read? hcontent
    have hafter : upTo after (c :: t) ++ after = c :: t :=
      upTo_append_self ⟨head ++ '<' :: (body ++ [';']), by rw [hhead, hbody]; simp⟩
    have hothers : others.excerpts.flatMap Excerpt.text ++ others.tail = after := by
      simpa [Dissection.text] using ih
    simp only [Dissection.text, List.flatMap_cons, List.append_assoc, hothers]
    simp only [Excerpt.text, excerpt, site, cutCallSite_append, List.append_assoc, hafter]

/-- The pieces of a document are the document, so that the places of the blocks
    can be told from the sizes of the pieces. -/
theorem text_dissect (receiver document : Text) : (dissect receiver document).text = document := by
  simp [dissect, text_dissectFrom]

end Block

end EntitySplit
