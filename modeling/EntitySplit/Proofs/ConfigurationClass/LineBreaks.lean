import EntitySplit.ConfigurationClass.Import
import EntitySplit.Proofs.ConfigurationClass.Embedding
import EntitySplit.Proofs.ConfigurationClass.Parts
import EntitySplit.Proofs.Indent
import EntitySplit.Proofs.Text.Convention

namespace EntitySplit

open Text (Convention)

namespace Indent

variable {convention : Convention} {statements oldIndent newIndent line : Text}

/-- A line with its indentation exchanged holds to a convention if the line and
    the new indentation do. Of the old one only that it is spaces and tabs is
    asked, so taking it away cannot separate a carriage return from its line
    feed. -/
theorem heldBy_shift (hold : ∀ c ∈ oldIndent, Text.isIndent c = true)
    (hnew : convention.HeldBy newIndent)
    (hline : convention.HeldBy line) : convention.HeldBy (shift oldIndent newIndent line) := by
  unfold shift
  split
  · exact hline
  · split
    · next rest hrest =>
      rw [Text.eq_append_of_after? hrest] at hline
      refine hnew.append (hline.right fun hreturn => ?_)
      exact absurd (hold '\r' (List.mem_of_getLast? hreturn)) (by decide)
    · exact hline

/-- Statements set anew hold to the convention of the line break they are
    joined with, if each of their lines does. How their own lines ended does
    not matter. -/
theorem heldBy_reindent (hnew : convention.HeldBy newIndent)
    (hlines : ∀ line ∈ Text.lines statements, convention.HeldBy line) :
    convention.HeldBy (reindent statements newIndent convention.lineBreak) := by
  apply Convention.heldBy_intercalate convention.heldBy_lineBreak
  intro line hmem
  obtain ⟨line, hcore, rfl⟩ := List.mem_map.1 hmem
  exact heldBy_shift (isIndent_of_mem_base statements) hnew
    (hlines line (mem_lines_of_mem_coreLines hcore))

end Indent

namespace Block

variable {convention : Convention} {content : Content}

/-- What a class takes from a block holds to a convention: the type as the
    block writes it, the parameter, and the lines of the statements, but not
    what separates these. -/
structure Content.HoldsTo (convention : Convention) (content : Content) : Prop where
  typeName : convention.HeldBy content.typeName
  parameterName : convention.HeldBy content.parameterName
  lines : ∀ line ∈ Text.lines content.statements, convention.HeldBy line

/-- The simple name holds to a convention if the whole type does, being a part
    of it without line breaks cut in two. -/
theorem Content.heldBy_simpleName (h : convention.HeldBy content.typeName) :
    convention.HeldBy content.simpleName := by
  have hname : convention.HeldBy (Text.trim (content.typeName.takeWhile (· != '<'))) := by
    have hsplit := List.takeWhile_append_dropWhile (p := (· != '<')) (l := content.typeName)
    rw [← hsplit] at h
    exact h.left.trim
  unfold simpleName
  dsimp only
  generalize Text.trim (content.typeName.takeWhile (· != '<')) = name at hname
  have hsplit :=
    List.takeWhile_append_dropWhile (p := fun c => c != '.' && c != ':') (l := name.reverse)
  rw [← List.reverse_reverse name, ← hsplit, List.reverse_append] at hname
  refine hname.right fun hreturn => ?_
  -- The name is cut at a mark.
  have hmark := List.head?_dropWhile_not (fun c => c != '.' && c != ':') name.reverse
  rw [List.getLast?_reverse] at hreturn
  rw [hreturn] at hmark
  exact absurd hmark (by decide)

end Block

namespace ConfigurationClass

variable {convention : Convention} {context : Context} {block : Block} {existing declaration : Text}
  {usings : List Text}

/-- What a class takes from elsewhere than its block holds to a convention.
    Settings without line breaks hold to every one. -/
structure Context.HoldsTo (convention : Convention) (context : Context) : Prop where
  suffix : convention.HeldBy context.settings.suffix
  indentUnit : convention.HeldBy context.settings.indentUnit
  extraUsings : ∀ directive ∈ context.settings.extraUsings, convention.HeldBy directive
  documentNamespace : convention.HeldBy context.documentNamespace

section

variable (hcontext : context.HoldsTo convention)

include hcontext

theorem heldBy_indentation (levels : Nat) : convention.HeldBy (indentation context levels) := by
  apply Convention.heldBy_flatten
  intro unit hmem
  rw [List.eq_of_mem_replicate hmem]
  exact hcontext.indentUnit

theorem heldBy_classLine (hblock : block.content.HoldsTo convention) (depth : Nat) :
    convention.HeldBy (classLine context depth block) := by
  have hname : convention.HeldBy (nameFor context.settings block) :=
    (Block.Content.heldBy_simpleName hblock.typeName).append hcontext.suffix
  have hclass : convention.HeldBy "public class ".toList :=
    Convention.heldBy_of_not_mem (by decide +kernel) (by decide +kernel)
  have hbase : convention.HeldBy " : IEntityTypeConfiguration<".toList :=
    Convention.heldBy_of_not_mem (by decide +kernel) (by decide +kernel)
  have hend : convention.HeldBy ['>'] := Convention.heldBy_of_not_mem (by decide) (by decide)
  exact (((((heldBy_indentation hcontext depth).append hclass).append hname).append hbase).append
    hblock.typeName).append hend

omit hcontext in
theorem heldBy_signature (hblock : block.content.HoldsTo convention) :
    convention.HeldBy (signature block) := by
  have hopen : convention.HeldBy "public void Configure(EntityTypeBuilder<".toList :=
    Convention.heldBy_of_not_mem (by decide +kernel) (by decide +kernel)
  have hclose : convention.HeldBy "> ".toList :=
    Convention.heldBy_of_not_mem (by decide +kernel) (by decide +kernel)
  have hend : convention.HeldBy [')'] := Convention.heldBy_of_not_mem (by decide) (by decide)
  exact (((hopen.append hblock.typeName).append hclose).append hblock.parameterName).append hend

/-- A declaration holds to the convention whose line break its lines are joined
    with, however deep it stands. -/
theorem heldBy_declaration (hblock : block.content.HoldsTo convention)
    (heol : context.lineEnding = convention.lineBreak) (depth : Nat) :
    convention.HeldBy (ConfigurationClass.declaration context depth block) := by
  have hindent := heldBy_indentation hcontext
  have hopen : convention.HeldBy ['{'] := Convention.heldBy_of_not_mem (by decide) (by decide)
  have hclose : convention.HeldBy ['}'] := Convention.heldBy_of_not_mem (by decide) (by decide)
  have hbody : convention.HeldBy (bodyText context depth block) := by
    rw [bodyText, heol]
    exact Indent.heldBy_reindent (hindent (depth + 2)) hblock.lines
  rw [ConfigurationClass.declaration, heol, declarationLines_eq]
  apply Convention.heldBy_intercalate convention.heldBy_lineBreak
  simp only [List.forall_mem_append, List.forall_mem_cons]
  refine ⟨⟨⟨heldBy_classLine hcontext hblock depth, (hindent depth).append hopen,
    (hindent (depth + 1)).append (heldBy_signature hblock), (hindent (depth + 1)).append hopen, ?_⟩,
      ?_⟩,
    (hindent (depth + 1)).append hclose, (hindent depth).append hclose, ?_⟩
  · simp
  · split
    · simp
    · simpa using hbody
  · simp

/-- The directives that every class needs hold to the convention. Those of the
    document are not among them, since an embedded class does without. -/
theorem heldBy_fixedUsings : ∀ directive ∈ fixedUsings context, convention.HeldBy directive := by
  have hkeyword : convention.HeldBy "using ".toList :=
    Convention.heldBy_of_not_mem (by decide +kernel) (by decide +kernel)
  have hend : convention.HeldBy [';'] := Convention.heldBy_of_not_mem (by decide) (by decide)
  intro directive hmem
  rcases List.mem_append.1 hmem with hmem | hmem
  · exact hcontext.extraUsings directive hmem
  · split at hmem
    · exact absurd hmem List.not_mem_nil
    · rw [List.mem_singleton.1 hmem]
      exact (hkeyword.append hcontext.documentNamespace).append hend

end

/-- Adding directives keeps the convention of a file, wherever they come to
    stand. -/
theorem heldBy_withUsings (hexisting : convention.HeldBy existing)
    (husings : ∀ directive ∈ usings, convention.HeldBy directive) :
    convention.HeldBy (withUsings existing usings convention.lineBreak) := by
  have hbreak := convention.heldBy_lineBreak
  unfold withUsings
  split
  · next head tail hsplit =>
    have hlast := Header.getLast?_of_splitAfterUsings? hsplit
    rw [Header.eq_append_of_splitAfterUsings? hsplit] at hexisting
    have htail : convention.HeldBy tail :=
      hexisting.right fun hreturn => absurd (hlast.symm.trans hreturn) (by decide)
    exact (hexisting.left.append
      (Convention.heldBy_flatMap fun _ hmem => hbreak.append (husings _ hmem))).append htail
  · refine ((Convention.heldBy_flatMap fun _ hmem =>
      (husings _ hmem).append hbreak).append ?_).append hexisting
    split
    · exact convention.heldBy_nil
    · exact hbreak

/-- A file with a class appended keeps its convention if the declaration and
    the directives hold to it. The line breaks put in between are those of the
    file. -/
theorem heldBy_embedInto (hexisting : convention.HeldBy existing)
    (hdeclaration : convention.HeldBy declaration)
    (husings : ∀ directive ∈ usings, convention.HeldBy directive) :
    convention.HeldBy (embedInto existing declaration usings convention.lineBreak) := by
  have hbreak := convention.heldBy_lineBreak
  have hfile :
    convention.HeldBy (withUsings existing (missingUsings existing usings) convention.lineBreak) :=
    heldBy_withUsings hexisting fun directive hmem => husings directive (List.mem_filter.1 hmem).1
  unfold embedInto
  refine (((hfile.append ?_).append hbreak).append hdeclaration).append hbreak
  split
  · exact convention.heldBy_nil
  · exact hbreak

end ConfigurationClass

end EntitySplit
