import EntitySplit.Proofs.ConfigurationClass.LineBreaks
import EntitySplit.Proofs.Split.Grouping
import EntitySplit.Proofs.Split.Returns

namespace EntitySplit

open Text (Convention)

namespace Split

open ConfigurationClass

/-- The blocks whose classes go into the entity's file at a path, in the order
    of the document. Blocks of types with one simple name come together here. -/
def blocksAt (settings : Settings) (folder path : Path) (blocks : List Block) : List Block :=
  blocks.filter fun block => (entityPath settings folder block).components = path.components

/-- An entity's file with the class of a block appended, in the file's line
    ending. The directives that the class needs are added as well, unless the
    file has them. -/
def embedBlock (context : Context) (existing : Text) (block : Block) : Text :=
  let lineEnding := Text.lineEnding existing
  embedInto existing (declaration { context with lineEnding } 0 block)
    (fixedUsings context) lineEnding

/-- What has been planned for blocks whose classes go into the entities' files:
    each of these with the classes of its blocks appended one after another,
    starting from what it holds when the run begins. -/
structure Outcome.Embeds (view : Files.View) (context : Context) (folder : Path)
    (blocks : List Block) (outcome : Outcome) : Prop where
  groups : outcome.Groups view context folder blocks
  contents : ∀ write ∈ outcome.writes, ∃ existing, view.probe write.path = .file (.text existing) ∧
    write.contents =
      (blocksAt context.settings folder write.path blocks).foldl (embedBlock context) existing

section

variable {view : Files.View} {context : Context} {folder path : Path} {outcome outcome' : Outcome}
  {block : Block} {blocks done : List Block}

/-- One more block appends its class to what is planned for its file, or else
    to the file itself. The class that is added to the report lies at the path
    of the entity's file. -/
theorem exists_of_addBlock_embed (hembed : context.settings.embed = true)
    (h : addBlock view context folder outcome block = .ok outcome') :
    ∃ existing made, targetText view outcome block.content.typeName made.path = .ok existing ∧
      made.path = entityPath context.settings folder block ∧
      outcome' = outcome.add made (embedBlock context existing block) := by
  rw [addBlock, if_pos hembed] at h
  dsimp only at h
  cases htext :
    targetText view outcome block.content.typeName (entityPath context.settings folder block) with
  | error failure => simp [htext, Except.map] at h
  | ok existing =>
    rw [htext] at h
    exact ⟨existing, embedded { context with lineEnding := Text.lineEnding existing } folder block,
      htext, rfl,
      (Except.ok.inj h).symm⟩

/-- One more block is one more for its own file and for no other. This follows
    the order in which planning goes through the blocks. -/
theorem blocksAt_concat (settings : Settings) (folder path : Path) (blocks : List Block)
    (block : Block) :
    blocksAt settings folder path (blocks ++ [block]) = blocksAt settings folder path blocks ++
      if (entityPath settings folder block).components = path.components then [block] else [] := by
  rw [blocksAt, List.filter_append, List.filter_singleton, ← blocksAt]
  simp

/-- A path for which nothing is planned is that of no block so far. Here
    embedding is needed, as blocks are looked for by the paths of their
    entities' files. -/
theorem Outcome.Groups.blocksAt_eq_nil (hgroups : outcome.Groups view context folder done)
    (hembed : context.settings.embed = true) (h : outcome.writes.find? (·.isTo path) = none) :
    blocksAt context.settings folder path done = [] := by
  have hpath : pathFor context.settings folder = entityPath context.settings folder :=
    funext fun block => if_pos hembed
  have hnone := hgroups.find?_isTo path
  rw [h, hpath, Option.map_none, eq_comm, List.find?_eq_none] at hnone
  exact List.filter_eq_nil_iff.2 fun block hmem => hnone _ (List.mem_map_of_mem hmem)

theorem Outcome.embeds_nil : ({} : Outcome).Embeds view context folder [] where
  groups := Outcome.groups_nil
  contents _ hmem := absurd hmem List.not_mem_nil

/-- One more block keeps each planned file a file with the classes of its
    blocks appended. For a file that is planned already the class comes behind
    the planned text, for another behind what the file holds. -/
theorem Outcome.Embeds.addBlock (hembeds : outcome.Embeds view context folder done)
    (hembed : context.settings.embed = true)
    (h : addBlock view context folder outcome block = .ok outcome') :
    outcome'.Embeds view context folder (done ++ [block]) := by
  refine ⟨hembeds.groups.addBlock h, ?_⟩
  obtain ⟨existing, made, htext, hmade, rfl⟩ := exists_of_addBlock_embed hembed h
  intro write hmem
  rw [blocksAt_concat, ← hmade]
  rcases mem_putWrite hembeds.groups.nodup hmem with
    ⟨hold, hother⟩ | ⟨old, hfind, rfl⟩ | ⟨hnone, rfl⟩
  · have hne : made.path.components ≠ write.path.components :=
      fun hsame => Bool.eq_false_iff.1 hother (PlannedWrite.isTo_iff.2 hsame.symm)
    rw [if_neg hne, List.append_nil]
    exact hembeds.contents write hold
  · -- The text that the class is appended to is the one planned so far.
    obtain ⟨text, hprobe, hcontents⟩ := hembeds.contents old (List.mem_of_find?_eq_some hfind)
    have hto : old.isTo made.path = true :=
      List.find?_some (p := (PlannedWrite.isTo · made.path)) hfind
    rw [targetText_of_planned hfind] at htext
    refine ⟨text, hprobe, ?_⟩
    rw [if_pos (PlannedWrite.isTo_iff.1 hto).symm, List.foldl_concat, ← hcontents,
      Except.ok.inj htext]
  · rcases targetText_of_unplanned view block.content.typeName hnone with ⟨text, hprobe, hread, -⟩ |
      ⟨failure, hfailed, -⟩
    · obtain rfl := Except.ok.inj (hread.symm.trans htext)
      refine ⟨text, hprobe, ?_⟩
      rw [if_pos rfl, hembeds.groups.blocksAt_eq_nil hembed hnone]
      rfl
    · exact absurd (hfailed.symm.trans htext) (by simp)

/-- What is planned for all blocks of a document is each entity's file with
    their classes appended, by induction on the blocks. -/
theorem embeds_of_planBlocks (hembed : context.settings.embed = true)
    (h : planBlocks view context folder blocks = .ok outcome) :
    outcome.Embeds view context folder blocks :=
  foldlM_addBlock (fun _ _ _ _ hembeds => hembeds.addBlock hembed) Outcome.embeds_nil h

end

section

variable {convention : Convention} {context : Context} {existing : Text} {block : Block}
  {blocks : List Block}

/-- Appending a class keeps the line endings of a file and the ending that is
    read off it. The context and the block must hold no line break against the
    convention, for what they hold is copied into the class. -/
theorem heldBy_embedBlock (hcontext : context.HoldsTo convention)
    (hblock : block.content.HoldsTo convention) (hexisting : convention.HeldBy existing)
    (heol : Text.lineEnding existing = convention.lineBreak) :
    convention.HeldBy (embedBlock context existing block) ∧
      Text.lineEnding (embedBlock context existing block) = convention.lineBreak := by
  have hdeclared : Context.HoldsTo convention { context with lineEnding := convention.lineBreak } :=
    { hcontext with }
  have hheld : convention.HeldBy (embedBlock context existing block) := by
    rw [embedBlock, heol]
    exact heldBy_embedInto hexisting (heldBy_declaration hdeclared hblock rfl 0)
      (heldBy_fixedUsings hcontext)
  refine ⟨hheld, hheld.lineEnding_eq ?_⟩
  rw [embedBlock, heol]
  exact (List.suffix_append _ _).isInfix

/-- Appending any number of classes keeps the line endings of a file. The
    ending that is read off the file has to be carried along, since each class
    is written in it. -/
theorem heldBy_foldl_embedBlock (hcontext : context.HoldsTo convention)
    (hblocks : ∀ block ∈ blocks, block.content.HoldsTo convention)
    (hexisting : convention.HeldBy existing)
    (heol : Text.lineEnding existing = convention.lineBreak) :
    convention.HeldBy (blocks.foldl (embedBlock context) existing) ∧
      Text.lineEnding (blocks.foldl (embedBlock context) existing) = convention.lineBreak := by
  induction blocks generalizing existing with
  | nil => exact ⟨hexisting, heol⟩
  | cons block blocks ih =>
    obtain ⟨hblock, hblocks⟩ := List.forall_mem_cons.1 hblocks
    obtain ⟨hheld, heol⟩ := heldBy_embedBlock hcontext hblock hexisting heol
    exact ih hblocks hheld heol

end

/-- The settings that go into a class hold no line breaks. The command line and
    the configuration file accept others, and these would stand in the class as
    they are. -/
structure UnbrokenSettings (settings : Settings) : Prop where
  suffix : '\r' ∉ settings.suffix ∧ '\n' ∉ settings.suffix
  indentUnit : '\r' ∉ settings.indentUnit ∧ '\n' ∉ settings.indentUnit
  extraUsings : ∀ directive ∈ settings.extraUsings, '\r' ∉ directive ∧ '\n' ∉ directive

/-- What the classes of a document have in common holds to every convention if
    the settings are unbroken. The namespace of a document is a name on one
    line, and its own directives do not go into entities' files, so nothing is
    asked of the document. -/
theorem holdsTo_contextFor {options : Options} (hsettings : UnbrokenSettings options.settings)
    (document : Document)
    (convention : Convention) : (contextFor options document).HoldsTo convention where
  suffix := Convention.heldBy_of_not_mem hsettings.suffix.1 hsettings.suffix.2
  indentUnit := Convention.heldBy_of_not_mem hsettings.indentUnit.1 hsettings.indentUnit.2
  extraUsings directive hmem :=
    Convention.heldBy_of_not_mem (hsettings.extraUsings directive hmem).1
      (hsettings.extraUsings directive hmem).2
  documentNamespace :=
    Convention.heldBy_of_not_mem (Header.return_not_mem_namespaceName _)
      (Header.feed_not_mem_namespaceName _)

section

variable {view : Files.View} {options : Options} {document : Document} {plan : Plan}
  {write : PlannedWrite}

/-- The content of a located block holds to a convention if its type and the
    lines of its statements do. The name of the parameter is an identifier, so
    nothing has to be asked of it. -/
theorem holdsTo_of_mem_locate {convention : Convention} {receiver text : Text} {block : Block}
    (hmem : block ∈ Block.locate receiver text) (htype : convention.HeldBy block.content.typeName)
    (hlines : ∀ line ∈ Text.lines block.content.statements, convention.HeldBy line) :
    block.content.HoldsTo convention := by
  have hparameter := Block.isIdentifier_parameterName hmem
  refine ⟨htype, Convention.heldBy_of_not_mem ?_ ?_, hlines⟩
  · exact hparameter.not_mem (by decide) (by decide +kernel) (by decide +kernel)
  · exact hparameter.not_mem (by decide) (by decide +kernel) (by decide +kernel)

/-- Each entity's file that is written keeps its line endings, however many
    classes are appended to it: without carriage returns it stays without any
    if there is none in the types of its blocks or within a line of their
    statements, and with one before each of its line feeds it stays so if the
    types have one before each of theirs. The document's own line endings play
    no part. -/
theorem embedding_keeps_line_endings (hplan : Split.plan view options document = .ok (some plan))
    (hembed : options.settings.embed = true) (hsettings : UnbrokenSettings options.settings)
    (hwrite : write ∈ plan.writes) :
    ∃ existing, view.probe write.path = .file (.text existing) ∧
      ('\r' ∉ existing →
        (∀ block ∈ blocksAt options.settings plan.outputDir write.path
            (Block.locate options.settings.receiver document.text),
          '\r' ∉ block.content.typeName ∧ ∀ line ∈ Text.lines block.content.statements,
            '\r' ∉ line) →
        '\r' ∉ write.contents) ∧
      ('\n' ∈ existing → Text.EachFeedReturned existing →
        (∀ block ∈ blocksAt options.settings plan.outputDir write.path
            (Block.locate options.settings.receiver document.text),
          Text.EachFeedReturned block.content.typeName) →
        Text.EachFeedReturned write.contents) := by
  obtain ⟨-, -, -, hplanned⟩ := planBlocks_of_plan hplan
  obtain ⟨existing, hprobe, hcontents⟩ :=
    (embeds_of_planBlocks hembed hplanned).contents write hwrite
  have hkept (convention : Convention) (hheld : convention.HeldBy existing)
      (heol : Text.lineEnding existing = convention.lineBreak)
      (hblocks : ∀ block ∈ blocksAt options.settings plan.outputDir write.path
        (Block.locate options.settings.receiver document.text), block.content.HoldsTo convention) :
      convention.HeldBy write.contents :=
    hcontents ▸ (heldBy_foldl_embedBlock
      (holdsTo_contextFor hsettings document convention) hblocks hheld heol).1
  refine ⟨existing, hprobe, ?_, ?_⟩
  · intro hreturn hblocks
    refine hkept .feed hreturn (Text.lineEnding_of_not_mem hreturn) fun block hmem => ?_
    exact holdsTo_of_mem_locate (List.mem_filter.1 hmem).1 (hblocks block hmem).1
      (hblocks block hmem).2
  · intro hfeed hreturned hblocks
    have heol : Text.lineEnding existing = Convention.returnFeed.lineBreak :=
      Convention.HeldBy.lineEnding_eq hreturned (hreturned.break_infix hfeed)
    refine hkept .returnFeed hreturned heol fun block hmem => ?_
    refine holdsTo_of_mem_locate (List.mem_filter.1 hmem).1 (hblocks block hmem) fun line hline =>
      ?_
    exact Text.eachFeedReturned_of_not_mem (Text.feed_not_mem_of_mem_lines hline)

end

/-- A run that puts classes into the entities' files, with a receiver of one
    letter and without configured directives. -/
def embeddingOptions : Options where
  settings := { receiver := ['m'], extraUsings := [], embed := true }
  outputDir := none
  namespaceName := none
  dryRun := false

/-- A plan of which something is known exists. The evaluated runs below compare
    what is read off a plan, as plans themselves are large. -/
theorem exists_plan_of_map {α : Type} {f : Plan → α} {r : Except Failure (Option Plan)} {a : α}
    (h : r.map (Option.map f) = .ok (some a)) : ∃ plan, r = .ok (some plan) ∧ f plan = a := by
  cases r with
  | error failure => exact absurd h (by simp [Except.map])
  | ok found =>
    obtain ⟨plan, rfl, ha⟩ := Option.map_eq_some_iff.1 (Except.ok.inj h)
    exact ⟨plan, rfl, ha⟩

/-- A document with a carriage return before each line feed, also between the
    statements of its block. -/
def returnedDocument : Document :=
  ⟨⟨"/Ctx.cs".toList⟩, "m.Entity<A>(a =>\r\n\x7b\r\n  a.B();\r\n\x7d);\r\n".toList⟩

/-- The classes of such a document come without the carriage returns in a file
    that has none: the statements are written anew line by line. -/
theorem embedding_keeps_line_endings_feed : ∃ plan,
    Split.plan entityView embeddingOptions returnedDocument = .ok (some plan) ∧
      plan.writes.map (·.path) = [⟨"/A.cs".toList⟩] ∧
        ∀ write ∈ plan.writes, '\r' ∉ write.contents := by
  have hplanned : (Split.plan entityView embeddingOptions returnedDocument).map
      (Option.map fun plan => plan.writes.map (·.path)) = .ok (some [⟨"/A.cs".toList⟩]) := by
        decide +kernel
  obtain ⟨plan, hplan, hpaths⟩ := exists_plan_of_map hplanned
  refine ⟨plan, hplan, hpaths, fun write hmem => ?_⟩
  have hsettings : UnbrokenSettings embeddingOptions.settings :=
    ⟨by decide +kernel, by decide +kernel, by decide +kernel⟩
  have hblocks : ∀ block ∈ Block.locate embeddingOptions.settings.receiver returnedDocument.text,
      '\r' ∉ block.content.typeName ∧ ∀ line ∈ Text.lines block.content.statements,
        '\r' ∉ line := by
    decide +kernel
  obtain ⟨existing, hprobe, hkept, -⟩ := embedding_keeps_line_endings hplan rfl hsettings hmem
  have hpath : write.path = ⟨"/A.cs".toList⟩ := by
    have hpath := List.mem_map_of_mem (f := (·.path)) hmem
    rwa [hpaths, List.mem_singleton] at hpath
  have hthere : entityView.probe ⟨"/A.cs".toList⟩ = .file (.text "class A;\n".toList) := by
    decide +kernel
  rw [hpath, hthere] at hprobe
  obtain rfl : "class A;\n".toList = existing := by simpa using hprobe
  exact hkept (by decide +kernel) fun block hmem => hblocks block (List.mem_filter.1 hmem).1

/-- A document with a type that is written over two lines, with a carriage
    return before the line feed between them. -/
def brokenTypeDocument : Document :=
  ⟨⟨"/Ctx.cs".toList⟩, "m.Entity<Pair<int,\r\nA>>(p => \x7b \x7d);\r\n".toList⟩

/-- The type brings the line break in it into the entity's file, although this
    has line feeds only. So the premises on the types in
    `embedding_keeps_line_endings` cannot be left out. -/
theorem type_brings_line_break : ∃ plan,
    Split.plan (Files.view ⟨[(["Pair.cs".toList], .file (.text "class Pair;\n".toList))], []⟩)
      embeddingOptions brokenTypeDocument = .ok (some plan) ∧
      plan.writes.map (fun write => (write.path, write.contents.contains '\r')) =
        [(⟨"/Pair.cs".toList⟩, true)] :=
  exists_plan_of_map (by decide +kernel)

end Split

end EntitySplit
