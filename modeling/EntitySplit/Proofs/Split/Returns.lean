import EntitySplit.Proofs.Block.Grammar
import EntitySplit.Proofs.ConfigurationClass.Returns
import EntitySplit.Proofs.Header.Returns
import EntitySplit.Proofs.Reference.Rewriting
import EntitySplit.Split.Plan

namespace EntitySplit

open Text (withReturns)
open Block (Returned)

/-- Gaps and texts with carriage returns put in interleave to the whole with
    carriage returns put in; no premise is needed, as neither part is cut
    within a line break. -/
theorem Text.interleave_withReturns (gaps texts : List Text) :
    interleave (gaps.map withReturns) (texts.map withReturns) =
      withReturns (interleave gaps texts) := by
  induction texts generalizing gaps with
  | nil =>
    have hgaps (gaps : List Text) : interleave gaps [] = gaps.flatten := by cases gaps <;> rfl
    rw [List.map_nil, hgaps, hgaps, withReturns_flatten]
  | cons text texts ih =>
    cases gaps with
    | nil => rfl
    | cons gap gaps =>
      rw [List.map_cons, List.map_cons, interleave, interleave, ih, withReturns_append,
        withReturns_append]

namespace Reference

section

variable {settings : Settings} {block block' : Block} {blocks blocks' : List Block}

/-- The indentation in front of a block does not change but for its line break,
    so the replacement can be indented like the original. -/
theorem indent_withReturns (h : Returned block block') :
    block'.indent = withReturns block.indent := by
  rw [Block.indent, Block.indent, h.callSite, Text.dropWhile_withReturns (by decide)]

/-- The statement that replaces a block has a carriage return more for each
    line feed in it. A receiver or a suffix with a line feed would be copied as
    it is, hence the two premises. -/
theorem statement_withReturns (h : Returned block block') (hreceiver : '\n' ∉ settings.receiver)
    (hsuffix : '\n' ∉ settings.suffix) :
    statement settings block' = withReturns (statement settings block) := by
  have hcall : withReturns ".ApplyConfiguration(new ".toList = ".ApplyConfiguration(new ".toList :=
    Text.withReturns_of_not_mem (by decide +kernel)
  have hend : withReturns "());".toList = "());".toList :=
    Text.withReturns_of_not_mem (by decide +kernel)
  rw [statement, statement, ConfigurationClass.nameFor_withReturns h hsuffix,
    Text.withReturns_append, Text.withReturns_append, Text.withReturns_append, hcall, hend,
    Text.withReturns_of_not_mem hreceiver]

/-- What each block and its counterpart have in common but for line breaks
    holds for the whole list of them. -/
theorem map_returned {f : Block → Text}
    (hf : ∀ block block', Returned block block' → f block' = withReturns (f block))
    (h : List.Forall₂ Returned blocks blocks') :
    blocks'.map f = blocks.map fun block => withReturns (f block) := by
  induction h with
  | nil => rfl
  | cons hblock _ ih => rw [List.map_cons, List.map_cons, hf _ _ hblock, ih]

/-- Whatever the mode, each block gives way to the same text but for line
    breaks. The line ending that separates statements is the document's, and it
    gets its carriage return as well. -/
theorem map_text_edits_withReturns (hreceiver : '\n' ∉ settings.receiver)
    (hsuffix : '\n' ∉ settings.suffix) (h : List.Forall₂ Returned blocks blocks')
    (lineEnding : Text) :
    (edits settings (withReturns lineEnding) blocks').map Edit.text =
      ((edits settings lineEnding blocks).map Edit.text).map withReturns := by
  have hstatement (block block' : Block) (hblock : Returned block block') :=
    statement_withReturns hblock hreceiver hsuffix
  have hnothing {blocks blocks' : List Block} (h : List.Forall₂ Returned blocks blocks') :
      blocks'.map (fun _ => ([] : Text)) = blocks.map fun _ => withReturns [] :=
    map_returned (fun _ _ _ => rfl) h
  cases hmode : settings.referenceMode with
  | inPlace =>
    simp only [edits, hmode, List.map_map]
    refine map_returned (f := fun block => block.callSite ++ statement settings block) ?_ h
    intro block block' hblock
    rw [hblock.callSite, hstatement block block' hblock, Text.withReturns_append]
  | none =>
    simp only [edits, hmode, List.map_map]
    exact hnothing h
  | aggregate =>
    cases h with
    | nil => simp [edits, hmode]
    | @cons first first' others others' hfirst hothers =>
      have hall := map_returned hstatement (.cons hfirst hothers)
      simp only [edits, hmode, List.map_map, List.map_cons] at hall ⊢
      rw [hfirst.callSite, indent_withReturns hfirst, hall]
      refine List.cons_eq_cons.2 ⟨?_, hnothing hothers⟩
      simp only [Text.withReturns_append, Text.withReturns_intercalate, List.map_cons, List.map_map]
      rfl

end

/-- A document and its counterpart with carriage returns are both rewritten,
    and the second result is the first with carriage returns put in. That there
    is a line feed is needed, for the line ending is read off the document; the
    premise on the receiver keeps it from beginning within a line break. -/
theorem applyAll?_edits_withReturns {settings : Settings} {document : Text}
    (hreturn : '\r' ∉ document) (hfeed : '\n' ∈ document) (hescape : Lexical.Unescaped document)
    (hne : settings.receiver ≠ []) (hreceiver : ∀ c ∈ settings.receiver, c ≠ '\r' ∧ c ≠ '\n')
    (hsuffix : '\n' ∉ settings.suffix) :
    ∃ rewritten,
      Edit.applyAll?
        (edits settings (Text.lineEnding document) (Block.locate settings.receiver document))
        document =
        some rewritten ∧
      Edit.applyAll? (edits settings (Text.lineEnding (withReturns document))
        (Block.locate settings.receiver (withReturns document))) (withReturns document) =
        some (withReturns rewritten) := by
  have hblocks := Block.returned_locate hne hreceiver hreturn hescape
  have htexts :=
    map_text_edits_withReturns (fun hmem => (hreceiver _ hmem).2 rfl) hsuffix hblocks ['\n']
  have hgaps :
    (Block.dissect settings.receiver (withReturns document)).excerpts.map Block.Excerpt.lead ++
        [(Block.dissect settings.receiver (withReturns document)).tail] =
          ((Block.dissect settings.receiver document).excerpts.map Block.Excerpt.lead ++
            [(Block.dissect settings.receiver document).tail]).map withReturns := by
      rw [Block.dissect_withReturns hne hreceiver hreturn hescape, Block.Dissection.withReturns,
        List.map_append, List.map_map, List.map_map]
      rfl
  refine ⟨_, applyAll?_edits_eq_interleave settings _ _ _, ?_⟩
  rw [applyAll?_edits_eq_interleave, hgaps, Text.lineEnding_withReturns hfeed,
    Text.lineEnding_of_not_mem hreturn, ← Text.interleave_withReturns, ← htexts]
  rfl

end Reference

namespace Block

/-- The parts of a block that have no line break of the other kind in them: a
    parameter is an identifier, and statements come from a document without
    carriage returns. -/
theorem not_mem_of_mem_locate {receiver document : Text} {block : Block} (hreturn : '\r' ∉ document)
    (hmem : block ∈ locate receiver document) :
    '\n' ∉ block.content.parameterName ∧ '\r' ∉ block.content.statements := by
  obtain ⟨angle, layout, rest, ⟨before, hdocument, -, -⟩, hholds⟩ :=
    exists_layout_of_mem_locate hmem
  constructor
  · exact (isIdentifier_parameterName hmem).not_mem (by decide) (by decide +kernel)
      (by decide +kernel)
  · rw [hholds.statements]
    intro hmem
    apply hreturn
    rw [hdocument]
    exact List.mem_append_right before
      (List.mem_append_left rest (Layout.mem_text_of_mem_statements hmem))

end Block

/-- The document with a carriage return before each line feed, as an editor on
    another system would save it. -/
def Document.withReturns (document : Document) : Document :=
  { document with text := Text.withReturns document.text }

namespace Split

open ConfigurationClass (standalone standaloneContents)

section

variable {options : Options} {document : Document}

/-- What the classes have in common is the same but for line breaks. That the
    document has a line feed is needed, for one without any has a line ending
    by default. -/
theorem contextFor_withReturns (hreturn : '\r' ∉ document.text) (hfeed : '\n' ∈ document.text) :
    contextFor options document.withReturns = (contextFor options document).withReturns := by
  simp only [contextFor, Document.withReturns, ConfigurationClass.Context.withReturns,
    Header.usings_withReturns, Header.namespaceName_withReturns, Text.lineEnding_withReturns hfeed,
    Text.lineEnding_of_not_mem hreturn]
  rfl

/-- The parts that go into every class of a document are written on one line
    each. Of the settings and of a namespace that is asked for this is a
    premise; the document's own namespace is a name, which has no line break. -/
theorem oneLine_contextFor (hsuffix : '\n' ∉ options.settings.suffix)
    (hunit : '\n' ∉ options.settings.indentUnit)
    (hextra : ∀ directive ∈ options.settings.extraUsings, '\n' ∉ directive)
    (hnamespace : ∀ name ∈ options.namespaceName, '\n' ∉ name) :
    (contextFor options document).OneLine where
  suffix := hsuffix
  indentUnit := hunit
  extraUsings := hextra
  documentNamespace := Header.feed_not_mem_namespaceName document.text
  classNamespace := by
    rw [contextFor]
    cases hname : options.namespaceName with
    | none => exact Header.feed_not_mem_namespaceName document.text
    | some name => exact hnamespace name hname

end

/-- With a carriage return before each line feed of a document, the document
    has the same blocks with the carriage returns in them; the class for a
    block in a file of its own and the rewritten document get a carriage return
    before each line feed, so that no line feed is without one. It takes a
    receiver: without one, a block would begin at the line feed behind a
    carriage return. -/
theorem split_withReturns (options : Options) (document : Document) (folder : Path)
    (hreturn : '\r' ∉ document.text) (hfeed : '\n' ∈ document.text)
    (hescape : ¬['\\', '\n'] <:+: document.text) (hne : options.settings.receiver ≠ [])
    (hreceiver : ∀ c ∈ options.settings.receiver, c ≠ '\r' ∧ c ≠ '\n')
    (hsuffix : '\n' ∉ options.settings.suffix) (hunit : '\n' ∉ options.settings.indentUnit)
    (hextra : ∀ directive ∈ options.settings.extraUsings, '\n' ∉ directive)
    (hnamespace : ∀ name ∈ options.namespaceName, '\n' ∉ name) :
    List.Forall₂ (fun block block' => block'.content = block.content.withReturns ∧
        (standalone (contextFor options document.withReturns) folder block').contents =
          withReturns (standalone (contextFor options document) folder block).contents ∧
        Text.EachFeedReturned
          (standalone (contextFor options document.withReturns) folder block').contents)
      (Block.locate options.settings.receiver document.text)
      (Block.locate options.settings.receiver document.withReturns.text) ∧
    ∃ rewritten rewritten',
      Edit.applyAll? (Reference.edits options.settings (Text.lineEnding document.text)
        (Block.locate options.settings.receiver document.text)) document.text = some rewritten ∧
      Edit.applyAll? (Reference.edits options.settings (Text.lineEnding document.withReturns.text)
        (Block.locate options.settings.receiver document.withReturns.text))
          document.withReturns.text =
        some rewritten' ∧
      rewritten' = withReturns rewritten ∧ Text.EachFeedReturned rewritten' := by
  constructor
  · have hblocks := Block.returned_locate hne hreceiver hreturn hescape
    have hparts : ∀ block ∈ Block.locate options.settings.receiver document.text,
        '\n' ∉ block.content.parameterName ∧ '\r' ∉ block.content.statements :=
      fun block => Block.not_mem_of_mem_locate hreturn
    refine ((List.forall₂_and_left _ _).2 ⟨hparts, hblocks⟩).imp ?_
    rintro block block' ⟨⟨hparameter, hstatements⟩, hblock⟩
    have hcontents : standaloneContents (contextFor options document.withReturns) block' =
        withReturns (standaloneContents (contextFor options document) block) := by
      rw [contextFor_withReturns hreturn hfeed]
      exact ConfigurationClass.standaloneContents_withReturns
        (oneLine_contextFor hsuffix hunit hextra hnamespace) hblock hparameter hstatements
    have hreturned :=
      Text.eachFeedReturned_withReturns (standaloneContents (contextFor options document) block)
    rw [← hcontents] at hreturned
    exact ⟨hblock.content, hcontents, hreturned⟩
  · obtain ⟨rewritten, h, h'⟩ :=
      Reference.applyAll?_edits_withReturns hreturn hfeed hescape hne hreceiver hsuffix
    exact ⟨rewritten, _, h, h', rfl, Text.eachFeedReturned_withReturns rewritten⟩

/-- Two blocks that give way to one statement each at the place of the first:
    the rewritten texts differ by the carriage returns alone. -/
theorem split_withReturns_aggregate :
    ∃ rewritten rewritten',
      Edit.applyAll? (Reference.edits { receiver := ['m'], referenceMode := .aggregate } ['\n']
        (Block.locate
          ['m'] "x;\n  m.Entity<A>(a =>\n\x7b\x7d);\n  m.Entity<B>(b => \x7b\x7d);".toList))
        "x;\n  m.Entity<A>(a =>\n\x7b\x7d);\n  m.Entity<B>(b => \x7b\x7d);".toList =
          some rewritten ∧
      Edit.applyAll?
        (Reference.edits { receiver := ['m'], referenceMode := .aggregate } ['\r', '\n']
        (Block.locate
          ['m'] "x;\r\n  m.Entity<A>(a =>\r\n\x7b\x7d);\r\n  m.Entity<B>(b => \x7b\x7d);".toList))
        "x;\r\n  m.Entity<A>(a =>\r\n\x7b\x7d);\r\n  m.Entity<B>(b => \x7b\x7d);".toList =
          some rewritten' ∧
      rewritten' = withReturns rewritten ∧ Text.EachFeedReturned rewritten' := by
  have htext :
    withReturns "x;\n  m.Entity<A>(a =>\n\x7b\x7d);\n  m.Entity<B>(b => \x7b\x7d);".toList =
        "x;\r\n  m.Entity<A>(a =>\r\n\x7b\x7d);\r\n  m.Entity<B>(b => \x7b\x7d);".toList := by
          decide +kernel
  have hsplit :=
    (split_withReturns ⟨{ receiver := ['m'], referenceMode := .aggregate }, none, none, false⟩
      ⟨⟨[]⟩, "x;\n  m.Entity<A>(a =>\n\x7b\x7d);\n  m.Entity<B>(b => \x7b\x7d);".toList⟩ ⟨[]⟩
        (by decide +kernel)
      (by decide +kernel) (by decide +kernel) (by decide) (by decide) (by decide +kernel)
        (by decide +kernel)
      (by decide +kernel) (by decide)).2
  rw [Document.withReturns, htext] at hsplit
  exact hsplit

/-- Without a receiver a block begins at the line feed behind a carriage
    return, so that only the carriage return is left of the line break. All
    other premises of `split_withReturns` hold here. -/
theorem return_left_without_receiver :
    ('\r' ∉ "x\n.Entity<A>(a => \x7b\x7d);".toList ∧
      ¬['\\', '\n'] <:+: "x\n.Entity<A>(a => \x7b\x7d);".toList ∧
      withReturns "x\n.Entity<A>(a => \x7b\x7d);".toList =
        "x\r\n.Entity<A>(a => \x7b\x7d);".toList) ∧
    Edit.applyAll? (Reference.edits { receiver := [] } ['\n']
      (Block.locate [] "x\n.Entity<A>(a => \x7b\x7d);".toList))
        "x\n.Entity<A>(a => \x7b\x7d);".toList =
      some "x\n.ApplyConfiguration(new AConfiguration());".toList ∧
    Edit.applyAll? (Reference.edits { receiver := [] } ['\r', '\n']
      (Block.locate [] "x\r\n.Entity<A>(a => \x7b\x7d);".toList))
        "x\r\n.Entity<A>(a => \x7b\x7d);".toList =
      some "x\r.ApplyConfiguration(new AConfiguration());".toList ∧
    "x\r.ApplyConfiguration(new AConfiguration());".toList ≠
      withReturns "x\n.ApplyConfiguration(new AConfiguration());".toList := by
  decide +kernel

end Split

end EntitySplit
