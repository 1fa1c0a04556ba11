import EntitySplit.Proofs.Block.Grammar
import EntitySplit.Proofs.Lexical.Passing

namespace EntitySplit

namespace Block

open Lexical

/-- Whether the parts are those of a block does not depend on what follows the
    block. Each part is closed by a character of the block itself, so nothing
    behind the `;` is looked at. -/
theorem Layout.WellFormed.exchange {layout : Layout} {rest : Text} (h : layout.WellFormed rest)
    (other : Text) :
    layout.WellFormed other where
  argument_closes := h.argument_closes.exchange (by decide) _
  argument_visible := h.argument_visible
  beforeOpen := h.beforeOpen
  beforeParameter := h.beforeParameter
  parameter := h.parameter
  beforeArrow := h.beforeArrow
  beforeBody := h.beforeBody
  statements_closes := h.statements_closes.exchange (by decide) _
  beforeClose := h.beforeClose
  beforeEnd := h.beforeEnd

/-- What is read from the `<` of a block is read from it with any other text
    behind the block. That the block is read to its end is part of the premise. -/
theorem Content.read?_exchange {body rest : Text} {content : Content}
    (h : read? (body ++ rest) = some (content, rest)) (other : Text) :
    read? (body ++ other) = some (content, other) := by
  obtain ⟨layout, heq, hformed, -⟩ := Layout.exists_wellFormed h
  obtain rfl := List.append_cancel_right heq
  rw [Layout.read?_text_append hformed, Option.some.injEq, Prod.mk.injEq] at h
  rw [Layout.read?_text_append (hformed.exchange other), h.1]

section

variable {receiver document lead statement rest : Text} {block : Block}

/-- A start is a start with any other text behind its `<`, and at the beginning
    of a text as well, where no character before it could spoil it. -/
theorem afterStart?_exchange {previous : Option Char} {head inner : Text}
    (h : afterStart? receiver previous (head ++ '<' :: inner) = some inner) (other : Text) :
    afterStart? receiver none (head ++ '<' :: other) = some other := by
  obtain ⟨-, head', hhead, heq⟩ := afterStart?_eq_some_iff.1 h
  obtain rfl := List.append_cancel_right heq
  exact afterStart?_eq_some_iff.2 ⟨rfl, head, hhead, rfl⟩

/-- A text that begins with a start and goes on with the rest of a block to its
    end is cut into that block alone, with no call site and nothing around it. -/
theorem dissect_statement {inner : Text} {content : Content}
    (hstart : afterStart? receiver none statement = some inner)
    (hcontent : Content.read? ('<' :: inner) = some (content, [])) :
    dissect receiver statement = ⟨[⟨[], [], statement, content⟩], []⟩ := by
  cases statement with
  | nil =>
    obtain ⟨head, heq⟩ := exists_append_of_afterStart? hstart
    exact absurd heq (by simp)
  | cons c t =>
    have hwhole : upTo [] (c :: t) = c :: t := upTo_eq_of_append (List.append_nil _).symm
    rw [dissect, dissectFrom]
    split
    · next hnone =>
      rw [List.head?_nil, hstart] at hnone
      exact absurd hnone (by simp)
    · next inner' hsome =>
      rw [List.head?_nil, hstart, Option.some.injEq] at hsome
      subst hsome
      split
      · next hnone =>
        rw [hcontent] at hnone
        exact absurd hnone (by simp)
      · next hread =>
        rw [hcontent, Option.some.injEq, Prod.mk.injEq] at hread
        obtain ⟨rfl, rfl⟩ := hread
        rw [dissectFrom, hwhole]
        rfl

/-- The statement of a block, taken alone, holds that block and no other. A
    block nested in its body is not located, since the search goes on behind
    the `;`. -/
theorem StandsBetween.locate_statement
    (h : StandsBetween receiver document block lead statement rest) :
    locate receiver statement =
      [⟨⟨0, statement.size⟩, ⟨0, statement.size⟩, [], block.content⟩] := by
  obtain ⟨inner, hstart, hcontent⟩ := h.reads
  obtain ⟨head, body, hstatement, rfl⟩ := exists_statement hstart hcontent
  have hparts : statement = head ++ '<' :: (body ++ [';']) := by
    rw [List.append_cancel_right hstatement]
    simp
  have hread : Content.read? ('<' :: (body ++ [';']) ++ rest) = some (block.content, rest) := by
    simpa using hcontent
  have halone := Content.read?_exchange hread []
  rw [List.append_nil] at halone
  have hbegins : afterStart? receiver none statement = some (body ++ [';']) := by
    rw [hstatement, List.append_assoc] at hstart
    rw [hparts]
    apply afterStart?_exchange
    simpa using hstart
  rw [locate, dissect_statement hbegins halone]
  simp [ofExcerpts]

end

/-- A block does not depend on the document around it: the text of a located
    block alone holds one block, which is all of that text and says the same.
    The receiver is arbitrary, and the block may stand in a comment or a
    literal. -/
theorem locate_slice {receiver document : Text} {block : Block}
    (hmem : block ∈ locate receiver document) :
    ∃ statement, block.outer.slice? document = some statement ∧
      locate receiver statement =
        [⟨⟨0, statement.size⟩, ⟨0, statement.size⟩, [], block.content⟩] := by
  obtain ⟨lead, statement, rest, hstands⟩ := exists_standsBetween hmem
  refine ⟨statement, Span.slice?_eq_some_iff.2 ⟨lead ++ block.callSite, rest, hstands.document_eq,
    hstands.outer_start.symm, ?_⟩, hstands.locate_statement⟩
  rw [hstands.outer_stop, Text.size_append _ statement]

/-- A block in a comment, with the beginning of another comment behind it. Cut
    out, it is read the same way, although in its document all of it is
    comment. -/
theorem locate_slice_commented :
    ∃ statement, Span.slice?
      ⟨3, 35⟩ "// m.Entity<A>(e => \x7b e.B('\x7d'); \x7d);/* m.Entity<B".toList =
        some statement ∧
      locate ['m'] statement =
        [⟨⟨0, statement.size⟩, ⟨0, statement.size⟩, [],
          ⟨['A'], ['e'], " e.B('\x7d'); ".toList⟩⟩] := by
  have hmem : ⟨⟨3, 35⟩, ⟨3, 35⟩, [], ⟨['A'], ['e'], " e.B('\x7d'); ".toList⟩⟩ ∈
      locate ['m'] "// m.Entity<A>(e => \x7b e.B('\x7d'); \x7d);/* m.Entity<B".toList := by
    decide +kernel
  exact locate_slice hmem

end Block

end EntitySplit
