import EntitySplit.Proofs.ConfigurationClass.Braces
import EntitySplit.Proofs.Indent.Literals

namespace EntitySplit

open Lexical
open Text (EndedBy IsUniform isIndent)

namespace Block

/-- The text of a block has its statements right behind a brace. -/
theorem Layout.exists_append_statements (layout : Layout) :
    ∃ front behind, layout.text = front ++ '{' :: (layout.statements ++ behind) :=
  ⟨'<' :: (layout.argument ++ '>' :: (layout.beforeOpen ++ '(' :: (layout.beforeParameter ++
      (layout.parameter ++ (layout.beforeArrow ++ '=' :: '>' :: layout.beforeBody))))),
    '}' :: layout.afterStatements, by simp [Layout.text, Layout.afterArgument, Layout.afterArrow]⟩

/-- The lines of statements end as those of the document do, being cut out of
    it as they stand. -/
theorem endedBy_statements {receiver document eol : Text} {block : Block}
    (hmem : block ∈ locate receiver document)
    (h : EndedBy eol document) : EndedBy eol block.content.statements := by
  obtain ⟨angle, layout, rest, ⟨before, rfl, -, -⟩, hcontent⟩ := exists_layout_of_mem_locate hmem
  rw [hcontent.statements]
  obtain ⟨front, behind, hsplit⟩ := layout.exists_append_statements
  have hwhole : before ++ (layout.text ++ rest) =
      before ++ front ++ ['{'] ++ (layout.statements ++ (behind ++ rest)) := by
    simp [hsplit]
  rw [hwhole] at h
  exact h.part (by simp)

end Block

namespace ConfigurationClass

section

variable {context : Context} {block : Block}

/-- Between the brace of the class and that of the method there is nothing but
    code. The type name may not begin a comment or a literal, as it is written
    there twice as it stands. -/
theorem reads_methodHead (hunit : ∀ c ∈ context.settings.indentUnit, isIndent c = true)
    (heol : Text.IsBreak context.lineEnding) (htype : ∀ c ∈ block.content.typeName, BeginsNothing c)
    (hparameter : IsIdentifier block.content.parameterName) (depth : Nat) (rest : Text) :
    Reads ('{' :: (methodHead context depth block ++ rest))
      (('{' :: methodHead context depth block).map .code) rest := by
  have hinert {c : Char} (hc : c ∈ context.lineEnding ++ indentation context (depth + 1)) :
    isInert c = true :=
    isInert_of (by decide) (isBlank_of_mem_newLine hunit heol (depth + 1) c hc)
  have hfixed : ∀ c ∈ "public void Configure(EntityTypeBuilder<".toList ++ "> ".toList ++ [')'],
    BeginsNothing c := by
    decide +kernel
  have hsignature : ∀ c ∈ signature block, BeginsNothing c := by
    intro c hc
    rcases mem_signature_iff.1 hc with hc | hc | hc
    · exact hfixed c hc
    · exact htype c hc
    · exact fun hmem => hparameter.isNeutral c hc (List.mem_append_left ['{', '}'] hmem)
  rw [← List.cons_append]
  refine reads_code (fun c hc => ?_) (fun c hc => ?_) rest
  · rcases List.mem_cons.1 hc with rfl | hc
    · decide
    · rcases List.mem_append.1 hc with hc | hc
      · exact beginsNothing_of_isInert (hinert hc)
      · rcases List.mem_append.1 hc with hc | hc
        · exact hsignature c hc
        · exact beginsNothing_of_isInert (hinert hc)
  · have hne : context.lineEnding ++ indentation context (depth + 1) ≠ [] := by
      rcases heol with h | h <;> simp [h]
    rw [methodHead, ← List.cons_append, ← List.append_assoc, List.getLast?_append_of_ne_nil _ hne]
      at hc
    exact isStringMark_of_isInert (hinert (List.mem_of_getLast? hc))

end

/-- A text has the method of a class behind `head`: from the brace of the class
    on there is nothing but code up to the brace of the method, and that one is
    closed behind the method's body, `tail` being what follows. -/
structure HoldsMethod (context : Context) (depth : Nat) (block : Block) (t head tail : Text) :
    Prop where
  text_eq : t = head ++ '{' :: (methodHead context depth block ++
    '{' :: (methodBody context depth block ++ '}' :: tail))
  reads : Reads
    ('{' :: (methodHead context depth block ++
    '{' :: (methodBody context depth block ++ '}' :: tail)))
    (('{' :: methodHead context depth block).map .code)
      ('{' :: (methodBody context depth block ++ '}' :: tail))
  matches_brace : BraceMatches t (Text.size (head ++ '{' :: methodHead context depth block))
    (Text.size (head ++ '{' :: methodHead context depth block) + 1 +
      (methodBody context depth block).size)

/-- In a file of its own the class for a located block of a document whose
    lines end alike holds the literals of the statements in its method, and no
    others. Those that go on over lines have these set anew as the lines of the
    statements are. This needs a type name that begins no comment and no
    literal, and that no literal takes in a line feed behind which the
    statements have nothing but white space. -/
theorem literals_carried {receiver document : Text} {block : Block} (context : Context)
    (folder : Path) (hmem : block ∈ Block.locate receiver document) (huniform : IsUniform document)
    (heol : context.lineEnding = Text.lineEnding document)
    (htype : ∀ c ∈ block.content.typeName, BeginsNothing c)
    (hunit : ∀ c ∈ context.settings.indentUnit, isIndent c = true)
    (htrails : ¬LiteralTrails (segments block.content.statements)) :
    HoldsMethod context (standaloneDepth context) block (standalone context folder block).contents
        (standaloneHead context ++ classHead context (standaloneDepth context) block)
        (context.lineEnding ++
          indentation context (standaloneDepth context) ++ '}' :: standaloneTail context) ∧
      literals (methodBody context (standaloneDepth context) block) =
        (literals block.content.statements).map
          (Indent.continued (Indent.base block.content.statements)
          (indentation context (standaloneDepth context + 2))) := by
  have hends : EndedBy context.lineEnding block.content.statements :=
    heol ▸ Block.endedBy_statements hmem huniform.endedBy
  obtain ⟨angle, layout, rest, ⟨-, -, -, hformed⟩, hcontent⟩ :=
    Block.exists_layout_of_mem_locate hmem
  have hcloses := hformed.statements_closes
  rw [← hcontent.statements] at hcloses
  have hparameter : IsIdentifier block.content.parameterName :=
    Block.isIdentifier_parameterName hmem
  generalize hdepth : standaloneDepth context = depth
  have hbody (tail : Text) : Closes '{' '}' (methodBody context depth block) tail :=
    Indent.closes_enclosed_of_not_trails hcloses hends htrails (isIndent_of_mem_indentation hunit _)
      (isIndent_of_mem_indentation hunit _) tail
  have hcontents : (standalone context folder block).contents =
      standaloneHead context ++ classHead context depth block ++
        '{' :: (methodHead context depth block ++
        '{' :: (methodBody context depth block ++
          '}' :: (context.lineEnding ++ indentation context depth ++
          '}' :: standaloneTail context))) := by
    have hwhole : (standalone context folder block).contents = standaloneContents context block :=
      rfl
    obtain ⟨-, -, -, hclass⟩ := intercalate_declarationLines context depth block
    rw [hwhole, standaloneContents_eq, hdepth, declaration, hclass, classBody]
    simp
  refine ⟨⟨hcontents, reads_methodHead hunit hends.isBreak htype hparameter depth _, ?_⟩, ?_⟩
  · have hmethod :=
      hbody (context.lineEnding ++ indentation context depth ++ '}' :: standaloneTail context)
    have hmatches := hmethod.braceMatches
      (standaloneHead context ++ classHead context depth block ++
        '{' :: methodHead context depth block)
    rw [hcontents]
    simpa using hmatches
  · exact Indent.literals_enclosed hcloses hends htrails (isIndent_of_mem_indentation hunit _)
      (isIndent_of_mem_indentation hunit _)

/-- A string that goes on over a line and one that does not. The first has its
    second line indented as a statement there would be. -/
theorem literals_carried_two :
    ∃ block ∈ Block.locate ['m'] "m.Entity<A>(e => \x7b\n  a(@\"x\n  y\", \"z\");\n\x7d);".toList,
      literals (methodBody ⟨{}, [], [], ['N'], ['\n']⟩ 1 block) =
        ["@\"x\n            y\"".toList, "\"z\"".toList] := by
  have hmem : ⟨⟨0, 42⟩, ⟨0, 42⟩, [], ⟨['A'], ['e'], "\n  a(@\"x\n  y\", \"z\");\n".toList⟩⟩ ∈
      Block.locate ['m'] "m.Entity<A>(e => \x7b\n  a(@\"x\n  y\", \"z\");\n\x7d);".toList := by
    decide +kernel
  have htrails : ¬LiteralTrails (segments "\n  a(@\"x\n  y\", \"z\");\n".toList) :=
    not_literalTrails_of_code (c := ';') (by decide +kernel)
  have huniform : IsUniform "m.Entity<A>(e => \x7b\n  a(@\"x\n  y\", \"z\");\n\x7d);".toList :=
    Text.isUniform_of_not_mem (by decide +kernel)
  refine ⟨_, hmem,
    (literals_carried ⟨{}, [], [], ['N'], ['\n']⟩ ⟨[]⟩ hmem huniform (by decide +kernel) (by decide)
    (by decide) htrails).2.trans ?_⟩
  decide +kernel

/-- The indentation of a line that begins within a string is changed, and so is
    the white space that a string takes in at the end of the statements. Both
    documents have only line feeds and a plain type name, so neither change
    comes from one of those premises. -/
theorem literals_not_kept :
    (∃ block ∈ Block.locate ['m'] "m.Entity<A>(e => \x7b\n  a(@\"x\n  y\");\n\x7d);".toList,
      IsUniform "m.Entity<A>(e => \x7b\n  a(@\"x\n  y\");\n\x7d);".toList ∧
        block.content.typeName = ['A'] ∧
        literals block.content.statements = ["@\"x\n  y\"".toList] ∧
        literals (methodBody ⟨{}, [], [], ['N'], ['\n']⟩ 1 block) =
          ["@\"x\n            y\"".toList]) ∧
    ∃ block ∈ Block.locate ['m'] "m.Entity<A>(e => \x7b a(\"x\\\n \n\x7d);".toList,
      IsUniform "m.Entity<A>(e => \x7b a(\"x\\\n \n\x7d);".toList ∧ block.content.typeName = ['A'] ∧
        literals block.content.statements = ["\"x\\\n ".toList] ∧
        literals (methodBody ⟨{}, [], [], ['N'], ['\n']⟩ 1 block) = ["\"x\\\n        ".toList] := by
  have hmem : ⟨⟨0, 37⟩, ⟨0, 37⟩, [], ⟨['A'], ['e'], "\n  a(@\"x\n  y\");\n".toList⟩⟩ ∈
      Block.locate ['m'] "m.Entity<A>(e => \x7b\n  a(@\"x\n  y\");\n\x7d);".toList := by
    decide +kernel
  have hmem' : ⟨⟨0, 30⟩, ⟨0, 30⟩, [], ⟨['A'], ['e'], " a(\"x\\\n \n".toList⟩⟩ ∈
      Block.locate ['m'] "m.Entity<A>(e => \x7b a(\"x\\\n \n\x7d);".toList := by
    decide +kernel
  exact ⟨⟨_, hmem, Text.isUniform_of_not_mem (by decide +kernel), rfl, by decide +kernel, by
    decide +kernel⟩,
    ⟨_, hmem', Text.isUniform_of_not_mem (by decide +kernel), rfl, by decide +kernel, by
      decide +kernel⟩⟩

end ConfigurationClass

end EntitySplit
