import EntitySplit.Proofs.Block.Passage

namespace EntitySplit

namespace Block

open Lexical

section

variable {receiver document : Text} {before after : List Excerpt} {excerpt : Excerpt}

theorem ofExcerpts_append (position : Nat) (before after : List Excerpt) :
    ofExcerpts position (before ++ after) =
      ofExcerpts position before ++
        ofExcerpts (position + Text.size (before.flatMap Excerpt.text)) after := by
  induction before generalizing position with
  | nil => rfl
  | cons excerpt before ih =>
    rw [List.cons_append, ofExcerpts_cons, ofExcerpts_cons, ih, List.flatMap_cons, Text.size_append,
      Nat.add_assoc, List.cons_append]

/-- The excerpts of a document are those of its located blocks, each at the
    position that the excerpts before it come to. -/
theorem ofExcerpt_mem_locate
    (h : (dissect receiver document).excerpts = before ++ excerpt :: after) :
    ofExcerpt (Text.size (before.flatMap Excerpt.text)) excerpt ∈ locate receiver document := by
  rw [locate, h, ofExcerpts_append, ofExcerpts_cons, Nat.zero_add]
  exact List.mem_append_right _ List.mem_cons_self

/-- A document is what stands in its excerpts and its tail; nothing is lost
    where it is cut. -/
theorem eq_of_excerpts (h : (dissect receiver document).excerpts = before ++ after) :
    document = before.flatMap Excerpt.text ++
      (after.flatMap Excerpt.text ++ (dissect receiver document).tail) := by
  have hdocument := text_dissect receiver document
  rwa [Dissection.text, h, List.flatMap_append, List.append_assoc, eq_comm] at hdocument

/-- The block of an excerpt stands where the excerpt has it, with the excerpts
    before it on the one side and those behind it and the tail on the other. -/
theorem standsBetween_of_excerpts
    (h : (dissect receiver document).excerpts = before ++ excerpt :: after) :
    StandsBetween receiver document (ofExcerpt (Text.size (before.flatMap Excerpt.text)) excerpt)
      (before.flatMap Excerpt.text ++ excerpt.lead) excerpt.statement
      (after.flatMap Excerpt.text ++ (dissect receiver document).tail) := by
  obtain ⟨lead, statement, rest, hstands⟩ := exists_standsBetween (ofExcerpt_mem_locate h)
  have hparts := (eq_of_excerpts h).symm.trans hstands.document_eq
  have hstart := hstands.removal_start
  have hstop := hstands.outer_stop
  simp only [ofExcerpt, Text.size_append] at hparts hstart hstop
  rw [List.flatMap_cons, Excerpt.text, List.append_assoc, List.append_assoc, List.append_assoc,
    ← List.append_assoc (before.flatMap Excerpt.text), List.append_assoc lead,
    List.append_assoc lead] at hparts
  obtain ⟨hlead, hbehind⟩ := Text.append_inj_of_size hparts (by rw [Text.size_append, hstart])
  rw [List.append_assoc] at hbehind
  obtain ⟨hstatement, hrest⟩ := Text.append_inj_of_size (List.append_cancel_left hbehind) (by omega)
  rw [hlead, hstatement, hrest]
  exact hstands

/-- An excerpt that starts in code and is read through, with `rest` behind it.
    That the call site begins nothing lets a reference stand behind it. -/
structure Excerpt.Readable (receiver : Text) (excerpt : Excerpt) (rest : Text) : Prop where
  starts : Reaches (excerpt.text ++ rest) (excerpt.statement ++ rest)
  ends : Reaches (excerpt.statement ++ rest) rest
  begins : receiver <+: excerpt.statement
  callSite_plain : ∀ c ∈ excerpt.callSite, BeginsNothing c

/-- The statement of a block begins with the receiver, be this a word or not. -/
theorem StandsBetween.receiver_prefix {block : Block} {lead statement rest : Text}
    (h : StandsBetween receiver document block lead statement rest) : receiver <+: statement := by
  obtain ⟨inner, hstart, hcontent⟩ := h.reads
  obtain ⟨-, head, ⟨b₁, b₂, b₃, -, rfl⟩, heq⟩ := afterStart?_eq_some_iff.1 hstart
  obtain ⟨body, hbody⟩ := Content.exists_append_of_read? hcontent
  obtain rfl := (List.cons.inj hbody).2
  have hstatement :
    statement ++ rest = receiver ++ (b₁ ++ '.' :: (b₂ ++ (['E', 'n', 't', 'i', 't', 'y'] ++ b₃)) ++
        '<' :: (body ++ [';'])) ++ rest := by
      rw [heq]
      simp
  exact ⟨_, (List.append_cancel_right hstatement).symm⟩

theorem IsCallSite.beginsNothing {lead callSite : Text} (h : IsCallSite lead callSite) :
    ∀ c ∈ callSite, BeginsNothing c := by
  have hindent {indent : Text} (hall : ∀ c ∈ indent, Text.isIndent c = true) (c : Char)
    (hc : c ∈ indent) :
      BeginsNothing c := beginsNothing_of_isInert (isInert_of (by decide) (hall c hc))
  rcases h with rfl | ⟨-, hall⟩ | ⟨lineBreak, indent, rfl, hall, hbreak⟩
  · exact fun c hc => absurd hc List.not_mem_nil
  · exact hindent hall
  · have hlineBreak : ∀ c ∈ lineBreak, BeginsNothing c := by
      rcases hbreak with rfl | ⟨rfl, -⟩ <;> decide
    intro c hc
    rcases List.mem_append.1 hc with hc | hc
    · exact hlineBreak c hc
    · exact hindent hall c hc

section

variable (hcode : ∀ block ∈ locate receiver document,
  kindAt? document block.outer.start = some .code)
include hcode

/-- Where all blocks start in code, the document is read up to each statement
    without remainder. This is said of the block by its position and taken over
    to the excerpt. -/
theorem reaches_statement (h : (dissect receiver document).excerpts = before ++ excerpt :: after) :
    Reaches document
      (excerpt.statement ++ (after.flatMap Excerpt.text ++ (dissect receiver document).tail)) :=
  (standsBetween_of_excerpts h).reaches_statement (hcode _ (ofExcerpt_mem_locate h))

variable (hword : ∀ c ∈ receiver, Text.isWord c = true)
include hword

/-- Between two excerpts the document is read without remainder: behind a
    statement nothing is open, and the first excerpt begins with the document. -/
theorem reaches_excerpts (h : (dissect receiver document).excerpts = before ++ after) :
    Reaches document (after.flatMap Excerpt.text ++ (dissect receiver document).tail) := by
  rcases List.eq_nil_or_concat before with rfl | ⟨others, last, rfl⟩
  · have hdocument := eq_of_excerpts h
    rw [List.flatMap_nil, List.nil_append] at hdocument
    exact hdocument ▸ Reaches.refl document
  · rw [List.concat_eq_append, List.append_assoc, List.singleton_append] at h
    exact (reaches_statement hcode h).trans ((standsBetween_of_excerpts h).reaches hword)

/-- Each excerpt of a document is readable if all blocks start in code and the
    receiver is a word. The two premises are those of the section. -/
theorem readable_of_excerpts
    (h : (dissect receiver document).excerpts = before ++ excerpt :: after) :
    excerpt.Readable receiver (after.flatMap Excerpt.text ++ (dissect receiver document).tail) := by
  have hstands := standsBetween_of_excerpts h
  constructor
  · obtain ⟨a, ha⟩ := reaches_excerpts hcode hword h
    obtain ⟨b, hb⟩ := reaches_statement hcode h
    rw [List.flatMap_cons, List.append_assoc] at ha
    apply ha.exists_of_length_le hb
    simp only [Excerpt.text, List.length_append]
    omega
  · exact hstands.reaches hword
  · exact hstands.receiver_prefix
  · have hsite := isCallSite_cutCallSite true
      (before.flatMap Excerpt.text ++ excerpt.lead ++ excerpt.callSite).reverse
    have hcut := hstands.callSite_cut
    rw [ofExcerpt] at hcut
    rw [hcut] at hsite
    exact hsite.beginsNothing

end

end

end Block

end EntitySplit
