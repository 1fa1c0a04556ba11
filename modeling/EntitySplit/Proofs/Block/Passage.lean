import EntitySplit.Proofs.Block.Grammar
import EntitySplit.Proofs.Lexical.Kind

namespace EntitySplit

namespace Lexical

section

variable {c : Char} {run trivia name rest : Text}

theorem reaches_of_isInert (hrun : ∀ c ∈ run, isInert c = true) (rest : Text) :
    Reaches (run ++ rest) rest :=
  ⟨_, reads_of_isInert hrun rest⟩

theorem reaches_cons (hc : isInert c = true) (rest : Text) : Reaches (c :: rest) rest := by
  have hrun : ∀ d ∈ [c], isInert d = true := by simpa using hc
  exact reaches_of_isInert hrun rest

/-- White space and comments are read through without remainder. The comments
    in trivia are closed, so it does not matter what follows. -/
theorem Trivia.reaches (h : Trivia trivia) (rest : Text) : Reaches (trivia ++ rest) rest := by
  induction h with
  | nil => exact .refl rest
  | space hc _ ih => exact (reaches_cons (isInert_of (by decide) hc) _).trans ih
  | @line body t hbody _ ih =>
    have hcomment := comment?_line hbody (t ++ rest)
    have hline := (Reaches.single (next?_of_comment? hcomment)).trans ih
    simpa using hline
  | @block body t hbody _ ih =>
    have hcomment := comment?_block hbody (t ++ rest)
    have hblock := (Reaches.single (next?_of_comment? hcomment)).trans ih
    simpa using hblock

theorem IsIdentifier.reaches (h : IsIdentifier name) (rest : Text) :
    Reaches (name ++ rest) rest := by
  obtain ⟨mark, first, parts, rfl, hmark, hfirst, hparts⟩ := h
  have hinert : ∀ c ∈ first :: parts, isInert c = true := by
    intro c hc
    rcases List.mem_cons.1 hc with rfl | hc
    · exact isInert_of (by decide +kernel) hfirst
    · exact isInert_of (by decide +kernel) (hparts c hc)
  have hbegins : ∀ c ∈ mark ++ first :: parts, BeginsNothing c := by
    intro c hc
    rcases List.mem_append.1 hc with hc | hc
    · rcases hmark with rfl | rfl
      · exact absurd hc List.not_mem_nil
      · obtain rfl := List.mem_singleton.1 hc
        decide
    · exact beginsNothing_of_isInert (hinert c hc)
  have hlast : ∀ c ∈ (mark ++ first :: parts).getLast?, isStringMark c = false := by
    intro c hc
    rw [List.getLast?_append_of_ne_nil _ (List.cons_ne_nil first parts)] at hc
    exact isStringMark_of_isInert (hinert c (List.mem_of_getLast? hc))
  exact ⟨_, reads_code hbegins hlast rest⟩

/-- From behind an opener the text is read through its closer: the closer is a
    segment of its own, being code. -/
theorem Closes.reaches {opener closer : Char} {inside : Text}
    (h : Closes opener closer inside rest) :
    Reaches (inside ++ closer :: rest) rest := by
  obtain ⟨segments, hinside, hcloser, -⟩ := h.exists_reads
  exact ⟨_, hinside.trans hcloser⟩

end

/-- A comment or a literal does not end between two characters of a word. It
    ends with a mark of its own, at a line feed, or with the text. -/
theorem Segment.FollowedBy.not_within_word {segment : Segment} {rest : Text}
    (h : segment.FollowedBy rest) (hkind : segment.kind ≠ .code) {c d : Char}
    (hlast : segment.text.getLast? = some c)
    (hhead : rest.head? = some d) : ¬(Text.isWord c = true ∧ Text.isWord d = true) := by
  rintro ⟨hc, hd⟩
  rcases h.ends with ⟨e, rfl⟩ | ⟨body, -, rfl⟩ | ⟨-, hend⟩ | ⟨e, he, htext⟩
  · exact absurd rfl hkind
  · have hfeed : c = '\n' := by simpa [Segment.text, List.getLast?_cons, eq_comm] using hlast
    rw [hfeed] at hc
    exact absurd hc (by decide)
  · rw [hend d hhead] at hd
    exact absurd hd (by decide)
  · rw [hlast, Option.some.injEq] at htext
    exact not_mem_of_all (by decide) hc (htext ▸ he)

/-- A comment or a literal in which a word begins holds the word to its end.
    What stands behind the word is arbitrary. -/
theorem PassesAt.word_prefix {document before front back word rest behind : Text}
    {segment : Segment} (hpasses : PassesAt document before segment front back behind)
    (hkind : segment.kind ≠ .code) (hword : ∀ c ∈ word, Text.isWord c = true)
    (hback : word ++ rest = back ++ behind) :
    word <+: back := by
  rcases List.append_eq_append_iff.1 hback with ⟨more, hmore, -⟩ | ⟨more, hmore, hbehind⟩
  · exact ⟨more, hmore.symm⟩
  · by_cases hnil : more = []
    · exact ⟨[], by rw [hmore, hnil, List.append_nil, List.append_nil]⟩
    · exfalso
      obtain ⟨d, more, rfl⟩ := List.exists_cons_of_ne_nil hnil
      have hrest : behind ≠ [] := by simp [hbehind]
      obtain ⟨-, hfollowed⟩ := (next?_eq_some_iff hrest).1 hpasses.next
      have hlast : segment.text.getLast? = some (back.getLast hpasses.back_ne) := by
        rw [hpasses.text_eq, List.getLast?_append_of_ne_nil _ hpasses.back_ne,
          List.getLast?_eq_some_getLast]
      apply hfollowed.not_within_word hkind hlast (by rw [hbehind]; rfl)
      exact ⟨hword _ (by simp [hmore]), hword d (by simp [hmore])⟩

end Lexical

namespace Block

open Lexical

section

variable {receiver head document lead statement rest : Text} {block : Block}

/-- A start is read through to its `<` if the receiver is a word. Only then is
    it known that no literal begins in it. -/
theorem IsStart.reaches (hword : ∀ c ∈ receiver, Text.isWord c = true)
    (hstart : IsStart receiver head)
    (rest : Text) : Reaches (head ++ '<' :: rest) ('<' :: rest) := by
  apply reaches_of_isInert
  intro c hc
  rcases hstart.kind_of_mem hword hc with h | h | rfl
  · exact isInert_of (by decide +kernel) h
  · exact isInert_of (by decide +kernel) h
  · decide

theorem IsParameter.reaches {name written : Text} (h : IsParameter name written) (rest : Text) :
    Reaches (written ++ rest) rest := by
  cases h with
  | bare hname => exact hname.reaches rest
  | @enclosed before _ after hbefore hname hafter =>
    have hreaches : Reaches ('(' :: (before ++ (name ++ (after ++ ')' :: rest)))) rest :=
      (reaches_cons (by decide) _).trans <| (hbefore.reaches _).trans <| (hname.reaches _).trans <|
        (hafter.reaches _).trans (reaches_cons (by decide) rest)
    simpa using hreaches

/-- A block is read through to its `;`. Each of its parts ends where the
    reading stops between two segments. -/
theorem Layout.WellFormed.reaches {layout : Layout} (h : layout.WellFormed rest) :
    Reaches (layout.text ++ rest) (';' :: rest) := by
  have hafterStatements : Reaches (layout.afterStatements ++ rest) (';' :: rest) := by
    rw [Layout.afterStatements, List.append_assoc, List.cons_append, List.append_assoc]
    exact (h.beforeClose.reaches _).trans <| (reaches_cons (by decide) _).trans
      (h.beforeEnd.reaches _)
  have hafterArrow : Reaches (layout.afterArrow ++ rest) (';' :: rest) := by
    rw [Layout.afterArrow, List.append_assoc, List.cons_append, List.append_assoc, List.cons_append]
    exact (h.beforeBody.reaches _).trans <| (reaches_cons (by decide) _).trans <|
      h.statements_closes.reaches.trans hafterStatements
  have hafterArgument : Reaches (layout.afterArgument ++ rest) (';' :: rest) := by
    have harrow : Reaches (['=', '>'] ++ (layout.afterArrow ++ rest)) (layout.afterArrow ++ rest) :=
      reaches_of_isInert (by decide) _
    have hreaches :=
      (h.beforeOpen.reaches _).trans <| (reaches_cons (c := '(') (by decide) _).trans <|
        (h.beforeParameter.reaches _).trans <| (h.parameter.reaches _).trans <|
          (h.beforeArrow.reaches _).trans <| harrow.trans hafterArrow
    simpa [Layout.afterArgument] using hreaches
  have hreaches :=
    (reaches_cons (c := '<') (by decide) _).trans <| h.argument_closes.reaches.trans hafterArgument
  simpa [Layout.text] using hreaches

/-- From its start to its `;` a block is read without remainder. The receiver
    is a word; nothing is asked of the text before the block. -/
theorem StandsBetween.reaches_end (h : StandsBetween receiver document block lead statement rest)
    (hword : ∀ c ∈ receiver, Text.isWord c = true) : Reaches (statement ++ rest) (';' :: rest) := by
  obtain ⟨inner, hstart, hcontent⟩ := h.reads
  obtain ⟨-, head, hhead, heq⟩ := afterStart?_eq_some_iff.1 hstart
  obtain ⟨layout, hlayout, hformed, -⟩ := Layout.exists_wellFormed hcontent
  rw [heq]
  refine (hhead.reaches hword inner).trans ?_
  rw [hlayout]
  exact hformed.reaches

/-- A block is read through its `;` as well, which is a segment of its own. -/
theorem StandsBetween.reaches (h : StandsBetween receiver document block lead statement rest)
    (hword : ∀ c ∈ receiver, Text.isWord c = true) : Reaches (statement ++ rest) rest :=
  (h.reaches_end hword).trans (reaches_cons (by decide) rest)

/-- Where a block starts in code the document is read up to its start without
    remainder. In a comment or a literal the start would be within a segment. -/
theorem StandsBetween.reaches_statement
    (h : StandsBetween receiver document block lead statement rest)
    (hcode : kindAt? document block.outer.start = some .code) :
    Reaches document (statement ++ rest) := by
  obtain ⟨c, more, hcons⟩ := List.exists_cons_of_ne_nil h.statement_ne_nil
  have hdocument := h.document_eq
  rw [h.outer_start] at hcode
  rw [hcons, List.append_assoc, List.cons_append] at hdocument
  obtain ⟨segments, hreads, -⟩ := exists_reads_of_kindAt?_code hdocument hcode
  rw [hcons, List.cons_append]
  exact ⟨segments, hreads⟩

/-- A block starts at `receiver`, so what the segment there has from the start
    on is the receiver and more, or a beginning of the receiver that no word
    goes over. The second can only be where the receiver is no word. -/
theorem StandsBetween.quoted_receiver
    (h : StandsBetween receiver document block lead statement rest) {segment : Segment}
    {front back behind : Text}
    (hpasses : PassesAt document (lead ++ block.callSite) segment front back behind)
    (hback : statement ++ rest = back ++ behind) (hkind : segment.kind ≠ .code) :
    receiver <+: back ∨ (back <+: receiver ∧ ∃ c ∈ receiver, Text.isWord c = false) := by
  obtain ⟨inner, hstart, -⟩ := h.reads
  obtain ⟨-, head, ⟨b₁, b₂, b₃, -, rfl⟩, heq⟩ := afterStart?_eq_some_iff.1 hstart
  rw [hback, List.append_assoc] at heq
  by_cases hword : ∀ c ∈ receiver, Text.isWord c = true
  · exact Or.inl (hpasses.word_prefix hkind hword heq.symm)
  · rcases List.append_eq_append_iff.1 heq with ⟨more, hreceiver, -⟩ | ⟨more, hmore, -⟩
    · push Not at hword
      obtain ⟨c, hc, hnot⟩ := hword
      exact Or.inr ⟨⟨more, hreceiver.symm⟩, c, hc, Bool.eq_false_iff.2 hnot⟩
    · exact Or.inl ⟨more, hmore.symm⟩

/-- At the byte `position` the document is in a comment or a literal that goes
    on with the receiver, or that ends within a receiver which is no word. -/
def QuotesReceiver (receiver document : Text) (position : Nat) : Prop :=
  ∃ (before : Text) (segment : Segment) (front back rest : Text), before.size = position ∧
    PassesAt document before segment front back rest ∧ segment.kind ≠ .code ∧
    (receiver <+: back ∨ (back <+: receiver ∧ ∃ c ∈ receiver, Text.isWord c = false))

/-- A located block starts in code, or else the comment or literal at its start
    quotes the receiver. No premise is put on the receiver or the document. -/
theorem code_or_quotesReceiver_of_mem_locate (hmem : block ∈ locate receiver document) :
    kindAt? document block.outer.start = some .code ∨
      QuotesReceiver receiver document block.outer.start := by
  obtain ⟨lead, statement, rest, hstands⟩ := exists_standsBetween hmem
  obtain ⟨c, more, hcons⟩ := List.exists_cons_of_ne_nil hstands.statement_ne_nil
  have hdocument : document = (lead ++ block.callSite) ++ c :: (more ++ rest) := by
    rw [hstands.document_eq, hcons, List.append_assoc, List.cons_append]
  obtain ⟨segment, front, back, behind, hpasses, hback⟩ := exists_passesAt hdocument
  rw [← List.cons_append, ← hcons] at hback
  by_cases hkind : segment.kind = .code
  · left
    rw [hstands.outer_start, hpasses.kindAt?_eq, hkind]
  · exact Or.inr ⟨_, segment, front, back, behind, hstands.outer_start.symm, hpasses, hkind,
      hstands.quoted_receiver hpasses hback hkind⟩

/-- A block starts in code, unless the comment or literal in which it starts
    has the receiver there itself. Where the receiver is a word and stands in
    no comment and no literal, all blocks start in code. The search itself does
    not look at what comes before a start. -/
theorem locate_starts_in_code (receiver document : Text) :
    (∀ block ∈ locate receiver document,
      kindAt? document block.outer.start = some .code ∨
        QuotesReceiver receiver document block.outer.start) ∧
    ((∀ c ∈ receiver, Text.isWord c = true) →
      (∀ segment ∈ segments document, segment.kind ≠ .code → ¬receiver <:+: segment.text) →
      ∀ block ∈ locate receiver document, kindAt? document block.outer.start = some .code) := by
  refine ⟨fun block => code_or_quotesReceiver_of_mem_locate, ?_⟩
  intro hword hnone block hmem
  rcases code_or_quotesReceiver_of_mem_locate hmem with hcode | hquotes
  · exact hcode
  · obtain ⟨before, segment, front, back, rest, -, hpasses, hkind, hprefix | ⟨-, c, hc, hnot⟩⟩ :=
      hquotes
    · refine absurd ?_ (hnone segment hpasses.mem_segments hkind)
      rw [hpasses.text_eq]
      exact hprefix.isInfix.trans (List.suffix_append front back).isInfix
    · rw [hword c hc] at hnot
      exact absurd hnot (by decide)

/-- A block in a comment is found like any other, so the exception in
    `locate_starts_in_code` does occur. -/
theorem commented_block_located :
    ∃ block ∈ locate "modelBuilder".toList "// modelBuilder.Entity<A>(a => \x7b \x7d);".toList,
      kindAt? "// modelBuilder.Entity<A>(a => \x7b \x7d);".toList block.outer.start =
        some .comment := by
  decide +kernel

end

end Block

end EntitySplit
