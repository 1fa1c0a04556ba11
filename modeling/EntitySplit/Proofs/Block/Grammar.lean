import EntitySplit.Proofs.Block.Search
import EntitySplit.Proofs.Lexical.Closer
import EntitySplit.Proofs.Lexical.Token
import EntitySplit.Proofs.Text.Blank

namespace EntitySplit

namespace Block

open Lexical

/-- The parameter of a lambda as written, bare or in parentheses. Within the
    parentheses white space and comments may stand on both sides of the name. -/
inductive IsParameter : (name written : Text) → Prop where
  | bare {name : Text} (hname : IsIdentifier name) : IsParameter name name
  | enclosed {before name after : Text} (hbefore : Trivia before) (hname : IsIdentifier name)
      (hafter : Trivia after) : IsParameter name ('(' :: (before ++ (name ++ (after ++ [')']))))

theorem IsParameter.isIdentifier {name written : Text} (h : IsParameter name written) :
    IsIdentifier name := by
  cases h with
  | bare hname => exact hname
  | enclosed _ hname _ => exact hname

/-- A parameter as written begins with a character that begins a token, so that
    white space and comments before it end where it begins. -/
theorem IsParameter.exists_cons {name written : Text} (h : IsParameter name written) :
    ∃ c t, written = c :: t ∧ BeginsToken c := by
  cases h with
  | bare hname =>
    obtain ⟨c, t, heq, hc, -⟩ := hname.exists_cons
    exact ⟨c, t, heq, hc⟩
  | enclosed _ _ _ => exact ⟨'(', _, rfl, by decide⟩

/-- A parameter is read as it is written. What follows must end the identifier,
    as a bare name would else go on. -/
theorem parameter?_of_isParameter {name written rest : Text} (h : IsParameter name written)
    (hrest : EndsIdentifier rest) : parameter? (written ++ rest) = some (name, rest) := by
  unfold parameter?
  cases h with
  | bare hname =>
    obtain ⟨c, t, heq, -, hparen⟩ := hname.exists_cons
    have hnone : Text.after? ['('] (name ++ rest) = none := by
      rw [Text.after?_eq_none_iff, heq, List.cons_append, List.cons_prefix_cons]
      exact fun h => hparen h.1.symm
    rw [hnone]
    exact identifier?_eq_some_iff.2 ⟨rfl, hrest, hname⟩
  | @enclosed before _ after hbefore hname hafter =>
    obtain ⟨c, t, heq, hc, -⟩ := hname.exists_cons
    have hopen : Text.after? ['('] ('(' :: (before ++ (name ++ (after ++ [')']))) ++ rest) =
        some (before ++ (name ++ (after ++ ')' :: rest))) := by
      rw [Text.after?_eq_some_iff]
      simp
    have hskip :
      skipTrivia (before ++ (name ++ (after ++ ')' :: rest))) = name ++ (after ++ ')' :: rest) := by
      rw [skipTrivia_append hbefore, heq, List.cons_append, skipTrivia_token hc.1 hc.2]
    have hread : identifier? (name ++ (after ++ ')' :: rest)) = some (name, after ++ ')' :: rest) :=
      identifier?_eq_some_iff.2 ⟨rfl, hafter.endsIdentifier (by decide +kernel), hname⟩
    have hclose : Text.after? [')'] (skipTrivia (after ++ ')' :: rest)) = some rest :=
      (after?_skipTrivia_eq_some_iff (by decide)).2 ⟨after, hafter, rfl⟩
    rw [hopen]
    simp only [hskip, hread, hclose, Option.bind_some, Option.map_some]

/-- What is read as a parameter is written as one. Together with
    `parameter?_of_isParameter` this fixes the reading. -/
theorem exists_isParameter {t name rest : Text} (h : parameter? t = some (name, rest)) :
    ∃ written, IsParameter name written ∧ t = written ++ rest := by
  unfold parameter? at h
  split at h
  · obtain ⟨heq, -, hname⟩ := identifier?_eq_some_iff.1 h
    exact ⟨name, .bare hname, heq⟩
  · next after hparen =>
    simp only [Option.bind_eq_some_iff, Option.map_eq_some_iff, Prod.exists, Prod.mk.injEq] at h
    obtain ⟨name, u, hread, v, hclose, rfl, rfl⟩ := h
    obtain ⟨heq, -, hname⟩ := identifier?_eq_some_iff.1 hread
    obtain ⟨c, t, hcons, hc, -⟩ := hname.exists_cons
    rw [hcons, List.cons_append, skipTrivia_eq_cons_iff hc] at heq
    obtain ⟨before, hbefore, rfl⟩ := heq
    obtain ⟨behind, hbehind, rfl⟩ := (after?_skipTrivia_eq_some_iff (by decide)).1 hclose
    refine ⟨_, .enclosed hbefore hname hbehind, ?_⟩
    rw [Text.eq_append_of_after? hparen, hcons]
    simp

/-- The parameter is determined, both how it is written and what it is named.
    What follows must end the identifier on either side. -/
theorem IsParameter.append_inj {name written rest name' written' rest' : Text}
    (h : IsParameter name written) (h' : IsParameter name' written') (hrest : EndsIdentifier rest)
    (hrest' : EndsIdentifier rest') (heq : written ++ rest = written' ++ rest') :
    name = name' ∧ written = written' ∧ rest = rest' := by
  have hread := parameter?_of_isParameter h hrest
  have hread' := parameter?_of_isParameter h' hrest'
  rw [heq, hread', Option.some.injEq, Prod.mk.injEq] at hread
  obtain ⟨rfl, rfl⟩ := hread
  exact ⟨rfl, List.append_cancel_right heq, rfl⟩

/-- A block from its `<` through its `;` as written, cut into its parts.
    Between the marks stand white space and comments. -/
structure Layout where
  /-- The text between `<` and `>`. -/
  argument : Text
  beforeOpen : Text
  beforeParameter : Text
  /-- The parameter with its parentheses, if it has any. -/
  parameter : Text
  parameterName : Text
  beforeArrow : Text
  beforeBody : Text
  /-- The text between the braces. -/
  statements : Text
  beforeClose : Text
  beforeEnd : Text

namespace Layout

/-- What follows the `}`. -/
def afterStatements (layout : Layout) : Text :=
  layout.beforeClose ++ ')' :: (layout.beforeEnd ++ [';'])

/-- What follows the `=>`. -/
def afterArrow (layout : Layout) : Text :=
  layout.beforeBody ++ '{' :: (layout.statements ++ '}' :: layout.afterStatements)

/-- What follows the `>` of the type argument. -/
def afterArgument (layout : Layout) : Text :=
  layout.beforeOpen ++ '(' :: (layout.beforeParameter ++
    (layout.parameter ++ (layout.beforeArrow ++ '=' :: '>' :: layout.afterArrow)))

def text (layout : Layout) : Text :=
  '<' :: (layout.argument ++ '>' :: layout.afterArgument)

/-- The parts with the form that the grammar asks for, `rest` being what
    follows the block. Type argument and body must be closed where the next
    mark stands, which can only be said with the text behind them. -/
structure WellFormed (layout : Layout) (rest : Text) : Prop where
  argument_closes : Closes '<' '>' layout.argument (layout.afterArgument ++ rest)
  argument_visible : ∃ c ∈ layout.argument, Text.isBlank c = false
  beforeOpen : Trivia layout.beforeOpen
  beforeParameter : Trivia layout.beforeParameter
  parameter : IsParameter layout.parameterName layout.parameter
  beforeArrow : Trivia layout.beforeArrow
  beforeBody : Trivia layout.beforeBody
  statements_closes : Closes '{' '}' layout.statements (layout.afterStatements ++ rest)
  beforeClose : Trivia layout.beforeClose
  beforeEnd : Trivia layout.beforeEnd

/-- The content that the parts hold: the type without the white space around
    it, the name of the parameter and the statements as they stand. -/
structure Says (layout : Layout) (content : Content) : Prop where
  typeName : Text.IsTrim layout.argument content.typeName
  parameterName : content.parameterName = layout.parameterName
  statements : content.statements = layout.statements

section

variable {layout : Layout} {rest : Text}

/-- The parameter of a well-formed block is read from it; the `=` behind it, or
    white space before this, ends the identifier. -/
theorem parameter?_eq (h : layout.WellFormed rest) :
    parameter? (layout.parameter ++
      (layout.beforeArrow ++ '=' :: '>' :: (layout.afterArrow ++ rest))) =
      some (layout.parameterName,
        layout.beforeArrow ++ '=' :: '>' :: (layout.afterArrow ++ rest)) := by
  have hends : isIdentifierPart '=' = false := by decide +kernel
  exact parameter?_of_isParameter h.parameter (h.beforeArrow.endsIdentifier hends)

/-- A text that begins with the parts of a block is read as that block, through
    its `;` and no further. This is the one direction of the grammar. -/
theorem read?_text_append (h : layout.WellFormed rest) :
    Content.read? (layout.text ++ rest) =
      some (⟨Text.trim layout.argument, layout.parameterName, layout.statements⟩, rest) := by
  have hargument : matching? '<' '>' (layout.text ++ rest) =
      some (layout.argument, layout.afterArgument ++ rest) := by
    rw [matching?_eq_some_iff (by decide)]
    exact ⟨by simp [text], h.argument_closes⟩
  have hvisible : (Text.trim layout.argument).isEmpty = false := by
    rw [List.isEmpty_eq_false_iff, ne_eq, Text.trim_eq_nil_iff]
    obtain ⟨c, hmem, hc⟩ := h.argument_visible
    intro hblank
    rw [hblank c hmem] at hc
    exact absurd hc (by decide)
  have hopen : Text.after? ['('] (skipTrivia (layout.afterArgument ++ rest)) =
      some (layout.beforeParameter ++ (layout.parameter ++
        (layout.beforeArrow ++ '=' :: '>' :: (layout.afterArrow ++ rest)))) := by
    rw [after?_skipTrivia_eq_some_iff (by decide)]
    exact ⟨layout.beforeOpen, h.beforeOpen, by simp [afterArgument]⟩
  have hparameter : skipTrivia (layout.beforeParameter ++ (layout.parameter ++
      (layout.beforeArrow ++ '=' :: '>' :: (layout.afterArrow ++ rest)))) =
        layout.parameter ++ (layout.beforeArrow ++ '=' :: '>' :: (layout.afterArrow ++ rest)) := by
    obtain ⟨c, t, heq, hc⟩ := h.parameter.exists_cons
    rw [skipTrivia_append h.beforeParameter, heq, List.cons_append, skipTrivia_token hc.1 hc.2]
  have harrow : Text.after? ['=', '>'] (skipTrivia
      (layout.beforeArrow ++ '=' :: '>' :: (layout.afterArrow ++ rest))) =
        some (layout.afterArrow ++ rest) := by
    rw [after?_skipTrivia_eq_some_iff (by decide)]
    exact ⟨layout.beforeArrow, h.beforeArrow, rfl⟩
  have hbody : skipTrivia (layout.afterArrow ++ rest) =
      '{' :: (layout.statements ++ '}' :: (layout.afterStatements ++ rest)) := by
    rw [skipTrivia_eq_cons_iff (by decide)]
    exact ⟨layout.beforeBody, h.beforeBody, by simp [afterArrow]⟩
  have hstatements :
    matching? '{' '}' ('{' :: (layout.statements ++ '}' :: (layout.afterStatements ++ rest))) =
        some (layout.statements, layout.afterStatements ++ rest) := by
      rw [matching?_eq_some_iff (by decide)]
      exact ⟨rfl, h.statements_closes⟩
  have hclose : Text.after? [')'] (skipTrivia (layout.afterStatements ++ rest)) =
      some (layout.beforeEnd ++ ';' :: rest) := by
    rw [after?_skipTrivia_eq_some_iff (by decide)]
    exact ⟨layout.beforeClose, h.beforeClose, by simp [afterStatements]⟩
  have hend : Text.after? [';'] (skipTrivia (layout.beforeEnd ++ ';' :: rest)) = some rest := by
    rw [after?_skipTrivia_eq_some_iff (by decide)]
    exact ⟨layout.beforeEnd, h.beforeEnd, rfl⟩
  simp only [Content.read?, hargument, hvisible, hopen, hparameter, parameter?_eq h, harrow, hbody,
    hstatements, hclose, hend, Option.bind_eq_bind, Option.bind_some, Bool.false_eq_true, if_false]
  rfl

end

/-- What is read as a block has the parts of one. This is the other direction,
    and the only place where the reading is taken apart. -/
theorem exists_wellFormed {t rest : Text} {content : Content}
    (h : Content.read? t = some (content, rest)) :
    ∃ layout : Layout, t = layout.text ++ rest ∧ layout.WellFormed rest ∧ layout.Says content := by
  simp only [Content.read?, Option.bind_eq_bind, Option.bind_eq_some_iff, Prod.exists,
    Option.pure_def] at h
  obtain ⟨argument, t₁, hargument, h⟩ := h
  obtain ⟨rfl, hangle⟩ := (matching?_eq_some_iff (by decide)).1 hargument
  split at h
  · exact absurd h (by simp)
  · next hvisible =>
    simp only [Option.bind_eq_some_iff, Prod.exists, Option.some.injEq, Prod.mk.injEq] at h
    obtain ⟨t₂, hopen, name, t₃, hparameter, t₄, harrow, statements, t₅, hstatements, t₆, hclose,
      t₇, hend,
      rfl, rfl⟩ := h
    obtain ⟨beforeOpen, hbeforeOpen, rfl⟩ := (after?_skipTrivia_eq_some_iff (by decide)).1 hopen
    obtain ⟨parameter, hform, hskip⟩ := exists_isParameter hparameter
    obtain ⟨c, u, hcons, hc⟩ := hform.exists_cons
    rw [hcons, List.cons_append, skipTrivia_eq_cons_iff hc] at hskip
    obtain ⟨beforeParameter, hbeforeParameter, rfl⟩ := hskip
    obtain ⟨beforeArrow, hbeforeArrow, rfl⟩ := (after?_skipTrivia_eq_some_iff (by decide)).1 harrow
    obtain ⟨hbody, hbrace⟩ := (matching?_eq_some_iff (by decide)).1 hstatements
    obtain ⟨beforeBody, hbeforeBody, rfl⟩ := (skipTrivia_eq_cons_iff (by decide)).1 hbody
    obtain ⟨beforeClose, hbeforeClose, rfl⟩ := (after?_skipTrivia_eq_some_iff (by decide)).1 hclose
    obtain ⟨beforeEnd, hbeforeEnd, rfl⟩ := (after?_skipTrivia_eq_some_iff (by decide)).1 hend
    refine ⟨⟨argument, beforeOpen, beforeParameter, parameter, name, beforeArrow, beforeBody,
      statements,
      beforeClose, beforeEnd⟩, ?_, ?_, ?_⟩
    · simp [text, afterArgument, afterArrow, afterStatements, hcons]
    · constructor
      · simpa [afterArgument, afterArrow, afterStatements, hcons] using hangle
      · rw [List.isEmpty_iff, Text.trim_eq_nil_iff] at hvisible
        simpa using hvisible
      · exact hbeforeOpen
      · exact hbeforeParameter
      · exact hform
      · exact hbeforeArrow
      · exact hbeforeBody
      · simpa [afterStatements] using hbrace
      · exact hbeforeClose
      · exact hbeforeEnd
    · exact ⟨Text.isTrim_trim argument, rfl, rfl⟩

/-- There is one way to cut a text into the parts of a block and what follows
    it. Each part is told by what may stand in it and by the mark behind it. -/
theorem WellFormed.unique {layout layout' : Layout} {rest rest' : Text} (h : layout.WellFormed rest)
    (h' : layout'.WellFormed rest') (heq : layout.text ++ rest = layout'.text ++ rest') :
    layout = layout' ∧ rest = rest' := by
  have hequals : isIdentifierPart '=' = false := by decide +kernel
  have hopen : BeginsToken '(' := by decide
  have harrow : BeginsToken '=' := by decide
  have hbrace : BeginsToken '{' := by decide
  have hclose : BeginsToken ')' := by decide
  have hend : BeginsToken ';' := by decide
  obtain ⟨c, u, hcons, hc⟩ := h.parameter.exists_cons
  obtain ⟨c', u', hcons', hc'⟩ := h'.parameter.exists_cons
  simp only [text, List.cons_append, List.append_assoc, List.cons.injEq, true_and] at heq
  obtain ⟨hargument, heq⟩ := h.argument_closes.append_inj (by decide) h'.argument_closes heq
  simp only [afterArgument, List.cons_append, List.append_assoc] at heq
  obtain ⟨hbeforeOpen, heq⟩ := h.beforeOpen.append_inj h'.beforeOpen hopen hopen heq
  rw [List.cons.injEq, hcons, hcons', List.cons_append, List.cons_append] at heq
  obtain ⟨hbeforeParameter, heq⟩ := h.beforeParameter.append_inj h'.beforeParameter hc hc' heq.2
  rw [← List.cons_append (a := c), ← List.cons_append (a := c'), ← hcons, ← hcons'] at heq
  obtain ⟨hname, hparameter, heq⟩ :=
    h.parameter.append_inj h'.parameter (h.beforeArrow.endsIdentifier hequals)
      (h'.beforeArrow.endsIdentifier hequals) heq
  obtain ⟨hbeforeArrow, heq⟩ := h.beforeArrow.append_inj h'.beforeArrow harrow harrow heq
  simp only [afterArrow, List.cons_append, List.append_assoc, List.cons.injEq, true_and] at heq
  obtain ⟨hbeforeBody, heq⟩ := h.beforeBody.append_inj h'.beforeBody hbrace hbrace heq
  rw [List.cons.injEq] at heq
  obtain ⟨hstatements, heq⟩ := h.statements_closes.append_inj (by decide) h'.statements_closes heq.2
  simp only [afterStatements, List.cons_append, List.append_assoc] at heq
  obtain ⟨hbeforeClose, heq⟩ := h.beforeClose.append_inj h'.beforeClose hclose hclose heq
  rw [List.cons.injEq] at heq
  obtain ⟨hbeforeEnd, heq⟩ := h.beforeEnd.append_inj h'.beforeEnd hend hend heq.2
  rw [List.cons.injEq, List.nil_append, List.nil_append] at heq
  refine ⟨?_, heq.2⟩
  cases layout
  cases layout'
  congr

end Layout

/-- The layout is that of the document from the byte `angle` on, with `rest`
    behind it. The byte is that of the `<`. -/
def Layout.StandsAt (layout : Layout) (document : Text) (angle : Nat) (rest : Text) : Prop :=
  ∃ before, document = before ++ (layout.text ++ rest) ∧ before.size = angle ∧
    layout.WellFormed rest

/-- The document from that byte on is the text of the layout and the rest. -/
theorem Layout.StandsAt.from?_eq {layout : Layout} {document rest : Text} {angle : Nat}
    (h : layout.StandsAt document angle rest) :
    Text.from? document angle = some (layout.text ++ rest) := by
  obtain ⟨before, hdocument, hsize, -⟩ := h
  exact Text.from?_eq_some_iff.2 ⟨before, hdocument, hsize⟩

/-- Where something is read from a byte of a document on, the parts of a block
    stand there and hold what is read. -/
theorem exists_standsAt {document rest : Text} {angle : Nat} {content : Content}
    (h : (Text.from? document angle).bind Content.read? = some (content, rest)) :
    ∃ layout : Layout, layout.StandsAt document angle rest ∧ layout.Says content := by
  obtain ⟨t, hfrom, hread⟩ := Option.bind_eq_some_iff.1 h
  obtain ⟨before, hdocument, hsize⟩ := Text.from?_eq_some_iff.1 hfrom
  obtain ⟨layout, rfl, hformed, hsays⟩ := Layout.exists_wellFormed hread
  exact ⟨layout, ⟨before, hdocument, hsize, hformed⟩, hsays⟩

theorem Layout.mem_text_of_mem_statements {layout : Layout} {c : Char}
    (hc : c ∈ layout.statements) :
    c ∈ layout.text := by
  simp [text, afterArgument, afterArrow, hc]

/-- A located block has the parts of a block in the document and says what they
    hold. So what is known of blocks as written holds of all that the search
    finds. -/
theorem exists_layout_of_mem_locate {receiver document : Text} {block : Block}
    (hmem : block ∈ locate receiver document) : ∃ (angle : Nat) (layout : Layout) (rest : Text),
      layout.StandsAt document angle rest ∧ layout.Says block.content := by
  obtain ⟨lead, statement, rest, hbetween⟩ := exists_standsBetween hmem
  obtain ⟨angle, -, hread⟩ := hbetween.startsAt
  obtain ⟨layout, hstands, hsays⟩ := exists_standsAt hread
  exact ⟨angle, layout, rest, hstands, hsays⟩

/-- The parameter of a block is an identifier, and so has no line break and no
    brace in it. -/
theorem isIdentifier_parameterName {receiver document : Text} {block : Block}
    (hmem : block ∈ locate receiver document) :
    IsIdentifier block.content.parameterName := by
  obtain ⟨_, layout, _, ⟨_, -, -, hformed⟩, hread⟩ := exists_layout_of_mem_locate hmem
  rw [hread.parameterName]
  exact hformed.parameter.isIdentifier

/-- What is read as a block from a byte of a document on is what the grammar of
    blocks says: something is read if and only if the document goes on with the
    parts of a block, and these parts are the only ones and hold what is read.
    The blocks of a document end where their parts do. Document and byte are
    arbitrary; a byte within a character is no place to read from. -/
theorem read?_iff_grammar (document : Text) :
    (∀ angle, ((Text.from? document angle).bind Content.read?).isSome ↔
      ∃ (layout : Layout) (rest : Text), layout.StandsAt document angle rest) ∧
    (∀ angle content rest, (Text.from? document angle).bind Content.read? = some (content, rest) →
      ∃ layout : Layout, layout.StandsAt document angle rest ∧ layout.Says content) ∧
    (∀ angle (layout layout' : Layout) (rest rest' : Text), layout.StandsAt document angle rest →
      layout'.StandsAt document angle rest' → layout = layout' ∧ rest = rest') ∧
    ∀ receiver, ∀ block ∈ locate receiver document, ∃ (angle : Nat) (layout : Layout) (rest : Text),
      StartsAt receiver document block.outer.start angle ∧ layout.StandsAt document angle rest ∧
      layout.Says block.content ∧ block.outer.stop = angle + layout.text.size := by
  refine ⟨?_, ?_, ?_, ?_⟩
  · intro angle
    constructor
    · intro h
      obtain ⟨⟨content, rest⟩, hread⟩ := Option.isSome_iff_exists.1 h
      obtain ⟨layout, hstands, -⟩ := exists_standsAt hread
      exact ⟨layout, rest, hstands⟩
    · rintro ⟨layout, rest, hstands⟩
      have hfrom := hstands.from?_eq
      obtain ⟨before, -, -, hformed⟩ := hstands
      rw [hfrom, Option.bind_some, Layout.read?_text_append hformed, Option.isSome_some]
  · intro angle content rest h
    exact exists_standsAt h
  · intro angle layout layout' rest rest' h h'
    have hfrom := h.from?_eq
    rw [h'.from?_eq, Option.some.injEq] at hfrom
    obtain ⟨before, -, -, hformed⟩ := h
    obtain ⟨before', -, -, hformed'⟩ := h'
    exact hformed.unique hformed' hfrom.symm
  · intro receiver block hmem
    obtain ⟨lead, statement, rest, hbetween⟩ := exists_standsBetween hmem
    obtain ⟨angle, hstarts, hread⟩ := hbetween.startsAt
    obtain ⟨layout, hstands, hsays⟩ := exists_standsAt hread
    refine ⟨angle, layout, rest, hstarts, hstands, hsays, ?_⟩
    obtain ⟨before, hdocument, hsize, -⟩ := hstands
    have hparts := congrArg Text.size (hbetween.document_eq.symm.trans hdocument)
    rw [Text.size_append, ← hbetween.outer_stop, Text.size_append, Text.size_append, hsize]
      at hparts
    omega

/-- A block with comments between its marks and a closing brace in a character
    literal of its body: the grammar finds its parts and what it says. -/
theorem read?_iff_grammar_commented : ∃ layout : Layout,
    layout.StandsAt "m.Entity< A.B /* > */ >( (b) =>\n// x\n \x7b c('\x7d'); \x7d ) ; d".toList 8
      " d".toList ∧
      layout.Says ⟨"A.B /* > */".toList, ['b'], " c('\x7d'); ".toList⟩ :=
  (read?_iff_grammar _).2.1 8 _ _ (by decide +kernel)

end Block

end EntitySplit
