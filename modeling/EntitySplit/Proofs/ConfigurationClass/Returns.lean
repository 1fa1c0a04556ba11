import EntitySplit.ConfigurationClass.Standalone
import EntitySplit.Proofs.Block.Returns
import EntitySplit.Proofs.ConfigurationClass.Parts
import EntitySplit.Proofs.Indent

namespace EntitySplit

open Text (withReturns)

namespace Block

/-- The simple name of a type with carriage returns is the simple name with
    them: neither dots nor angle brackets are touched. -/
theorem Content.simpleName_withReturns (content : Content) :
    content.withReturns.simpleName = Text.withReturns content.simpleName := by
  have hangle : decide ('\r' ≠ '<') = decide ('\n' ≠ '<') := by decide
  have hlast : ('\r' != '.' && '\r' != ':') = ('\n' != '.' && '\n' != ':') := by decide
  unfold simpleName
  rw [Content.withReturns, Text.takeWhile_withReturns hangle, Text.trim_withReturns,
    (Text.reverse_takeWhile_withReturns (p := fun c => c != '.' && c != ':') hlast _).1]

end Block

namespace Indent

/-- Setting statements anew with carriage returns in them and in the line break
    gives the same text with carriage returns. The statements may have none of
    their own before, as a second one would stay behind. -/
theorem reindent_withReturns {statements newIndent : Text} (hreturn : '\r' ∉ statements)
    (hnew : '\n' ∉ newIndent)
    (lineEnding : Text) : reindent (withReturns statements) newIndent (withReturns lineEnding) =
      withReturns (reindent statements newIndent lineEnding) := by
  have hlines := Text.lines_withReturns hreturn
  have hset : ∀ line ∈ (coreLines statements).map (shift (base statements) newIndent),
    withReturns line = line := by
    intro line hline
    obtain ⟨line, hmem, rfl⟩ := List.mem_map.1 hline
    obtain ⟨before, behind, hsplit, -⟩ := exists_lines_eq statements
    have hcore : line ∈ Text.lines statements := by
      rw [hsplit]
      exact List.mem_append_right before (List.mem_append_left behind hmem)
    exact Text.withReturns_of_not_mem (not_mem_shift hnew (Text.feed_not_mem_of_mem_lines hcore))
  rw [reindent, reindent, coreLines, base, hlines, ← coreLines, ← base,
    Text.withReturns_intercalate, List.map_congr_left hset, List.map_id']

end Indent

namespace ConfigurationClass

open Block (Returned)

/-- What the classes of a document have in common, with a carriage return
    before each line feed of the document. The settings and the namespaces stay
    as they are. -/
def Context.withReturns (context : Context) : Context :=
  { context with
    usings := context.usings.map Text.withReturns
    lineEnding := Text.withReturns context.lineEnding }

@[simp] theorem Context.classNamespace_withReturns (context : Context) :
    context.withReturns.classNamespace = context.classNamespace := rfl

@[simp] theorem Context.documentNamespace_withReturns (context : Context) :
    context.withReturns.documentNamespace = context.documentNamespace := rfl

@[simp] theorem Context.lineEnding_withReturns (context : Context) :
    context.withReturns.lineEnding = Text.withReturns context.lineEnding := rfl

/-- The name of a class for a rewritten block is the name with carriage
    returns. The suffix comes from the settings and is not rewritten, so it may
    hold no line feed. -/
theorem nameFor_withReturns {settings : Settings} {block block' : Block} (h : Returned block block')
    (hsuffix : '\n' ∉ settings.suffix) :
    nameFor settings block' = withReturns (nameFor settings block) := by
  rw [nameFor, h.content, Block.Content.simpleName_withReturns, nameFor, Text.withReturns_append,
    Text.withReturns_of_not_mem hsuffix]

/-- Nothing that goes into a class from elsewhere than the document holds a
    line feed. What does not come from the document is not rewritten with it,
    so a line feed in there would stay without its carriage return. -/
structure Context.OneLine (context : Context) : Prop where
  suffix : '\n' ∉ context.settings.suffix
  indentUnit : '\n' ∉ context.settings.indentUnit
  extraUsings : ∀ directive ∈ context.settings.extraUsings, '\n' ∉ directive
  documentNamespace : '\n' ∉ context.documentNamespace
  classNamespace : '\n' ∉ context.classNamespace

section

variable {context : Context} (honeLine : context.OneLine)

include honeLine

theorem feed_not_mem_indentation (levels : Nat) : '\n' ∉ indentation context levels := by
  intro hmem
  obtain ⟨unit, hunit, hfeed⟩ := List.mem_flatten.1 hmem
  rw [List.eq_of_mem_replicate hunit] at hfeed
  exact honeLine.indentUnit hfeed

theorem indentation_withReturns (levels : Nat) :
    indentation context.withReturns levels = withReturns (indentation context levels) :=
  (Text.withReturns_of_not_mem (feed_not_mem_indentation honeLine levels)).symm

section

variable {block block' : Block} (depth : Nat) (h : Returned block block')

include h

theorem classLine_withReturns :
    classLine context.withReturns depth block' = withReturns (classLine context depth block) := by
  have hname :
    nameFor context.withReturns.settings block' = withReturns (nameFor context.settings block) :=
    nameFor_withReturns h honeLine.suffix
  have hclass : withReturns "public class ".toList = "public class ".toList :=
    Text.withReturns_of_not_mem (by decide +kernel)
  have hbase :
    withReturns " : IEntityTypeConfiguration<".toList = " : IEntityTypeConfiguration<".toList :=
    Text.withReturns_of_not_mem (by decide +kernel)
  unfold classLine
  rw [hname, indentation_withReturns honeLine, h.content]
  simp only [Text.withReturns_append, hclass, hbase]
  rfl

omit honeLine in
theorem signature_withReturns (hparameter : '\n' ∉ block.content.parameterName) :
    signature block' = withReturns (signature block) := by
  have hopen : withReturns "public void Configure(EntityTypeBuilder<".toList =
      "public void Configure(EntityTypeBuilder<".toList :=
    Text.withReturns_of_not_mem (by decide +kernel)
  have hclose : withReturns "> ".toList = "> ".toList :=
    Text.withReturns_of_not_mem (by decide +kernel)
  unfold signature
  rw [h.content]
  simp only [Text.withReturns_append, hopen, hclose, Text.withReturns_of_not_mem hparameter]
  rfl

theorem bodyText_withReturns (hreturn : '\r' ∉ block.content.statements) :
    bodyText context.withReturns depth block' = withReturns (bodyText context depth block) := by
  rw [bodyText, h.content]
  exact Indent.reindent_withReturns hreturn
    (feed_not_mem_indentation honeLine (depth + 2)) context.lineEnding

/-- The declaration for the rewritten block is the declaration with a carriage
    return before each line feed, line by line. -/
theorem declaration_withReturns (hparameter : '\n' ∉ block.content.parameterName)
    (hreturn : '\r' ∉ block.content.statements) :
    declaration context.withReturns depth block' =
      withReturns (declaration context depth block) := by
  have hlines : declarationLines context.withReturns depth block' =
      (declarationLines context depth block).map withReturns := by
    rw [declarationLines_eq, declarationLines_eq, classLine_withReturns honeLine depth h,
      signature_withReturns h hparameter, bodyText_withReturns honeLine depth h hreturn,
      Text.isEmpty_withReturns]
    simp only [indentation_withReturns honeLine]
    split
    · simp only [List.map_append, List.map_cons, List.map_nil, Text.withReturns_append]
      rfl
    · simp only [List.map_append, List.map_cons, List.map_nil, Text.withReturns_append]
      rfl
  rw [declaration, declaration, hlines, Text.withReturns_intercalate]
  rfl

end

omit honeLine in
/-- Adding a directive decides alike in both documents: a directive without
    line feeds is among the rewritten ones exactly if it was among the others. -/
theorem addUsing_withReturns (usings : List Text) {directive : Text} (hfeed : '\n' ∉ directive) :
    addUsing context.withReturns (usings.map withReturns) directive =
      (addUsing context usings directive).map withReturns := by
  have hmem : directive ∈ usings.map withReturns ↔ directive ∈ usings := by
    rw [List.mem_map]
    constructor
    · rintro ⟨other, hother, heq⟩
      rwa [← Text.eq_of_withReturns_eq heq hfeed]
    · exact fun h => ⟨directive, h, Text.withReturns_of_not_mem hfeed⟩
  unfold addUsing
  simp only [Context.classNamespace_withReturns, Context.documentNamespace_withReturns, hmem]
  split
  · rfl
  · split
    · rfl
    · rw [List.map_append, List.map_singleton, Text.withReturns_of_not_mem hfeed]

theorem feed_not_mem_of_mem_fixedUsings {directive : Text}
    (hmem : directive ∈ fixedUsings context) :
    '\n' ∉ directive := by
  rcases List.mem_append.1 hmem with hmem | hmem
  · exact honeLine.extraUsings directive hmem
  · split at hmem
    · exact absurd hmem (by simp)
    · rw [List.mem_singleton] at hmem
      subst hmem
      have hkeyword : '\n' ∉ "using ".toList := by decide +kernel
      unfold usingFor
      simp only [List.mem_append, not_or]
      exact ⟨⟨hkeyword, honeLine.documentNamespace⟩, by decide⟩

/-- The directives of a file of its own are those of the document's, rewritten. -/
theorem standaloneUsings_withReturns :
    standaloneUsings context.withReturns = (standaloneUsings context).map withReturns := by
  have hfold : ∀ directives usings : List Text, (∀ directive ∈ directives, '\n' ∉ directive) →
      directives.foldl (addUsing context.withReturns) (usings.map withReturns) =
        (directives.foldl (addUsing context) usings).map withReturns := by
    intro directives
    induction directives with
    | nil => exact fun usings _ => rfl
    | cons directive directives ih =>
      intro usings hfeed
      rw [List.foldl_cons, List.foldl_cons,
        addUsing_withReturns usings (hfeed directive List.mem_cons_self)]
      exact ih _ fun other hother => hfeed other (List.mem_cons_of_mem directive hother)
  exact hfold (fixedUsings context) context.usings fun _ => feed_not_mem_of_mem_fixedUsings honeLine

/-- A file of its own for the rewritten document is the file for the document,
    with a carriage return before each line feed. -/
theorem standaloneContents_withReturns {block block' : Block} (h : Returned block block')
    (hparameter : '\n' ∉ block.content.parameterName) (hreturn : '\r' ∉ block.content.statements) :
    standaloneContents context.withReturns block' =
      withReturns (standaloneContents context block) := by
  have himports :
    importLines context.withReturns.lineEnding (standaloneUsings context.withReturns) =
        withReturns (importLines context.lineEnding (standaloneUsings context)) := by
      rw [standaloneUsings_withReturns honeLine, importLines, importLines, List.flatMap_map,
        List.isEmpty_map, Text.withReturns_append, Text.withReturns_flatMap]
      simp only [Text.withReturns_append]
      split <;> rfl
  have hkeyword : withReturns "namespace ".toList = "namespace ".toList :=
    Text.withReturns_of_not_mem (by decide +kernel)
  have hnamespace : withReturns context.classNamespace = context.classNamespace :=
    Text.withReturns_of_not_mem honeLine.classNamespace
  have hdeclaration (depth : Nat) := declaration_withReturns honeLine depth h hparameter hreturn
  unfold standaloneContents
  dsimp only
  rw [himports, hdeclaration, hdeclaration, Context.classNamespace_withReturns,
    Context.lineEnding_withReturns]
  split
  · simp only [Text.withReturns_append]
  · simp only [Text.withReturns_append, hkeyword, hnamespace]
    rfl

end

end ConfigurationClass

end EntitySplit
