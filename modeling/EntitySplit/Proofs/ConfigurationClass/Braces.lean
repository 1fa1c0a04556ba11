import EntitySplit.ConfigurationClass.Embedded
import EntitySplit.ConfigurationClass.Standalone
import EntitySplit.Lexical.Cursor
import EntitySplit.Proofs.Block.Grammar
import EntitySplit.Proofs.ConfigurationClass.Parts
import EntitySplit.Proofs.Indent

namespace EntitySplit

namespace Lexical

/-- The brace at a byte of a text is closed by the one at the byte `closing`,
    according to the scanner that finds the blocks themselves. -/
def BraceMatches (t : Text) (opening closing : Nat) : Prop :=
  (Cursor.findMatching ⟨t, opening⟩ '{' '}').1 = some closing

/-- What closes a brace on its own closes it within any text: the characters
    before the brace do not matter to a search that begins behind it. -/
theorem Closes.braceMatches {inside rest : Text} (h : Closes '{' '}' inside rest) (before : Text) :
    BraceMatches (before ++ '{' :: (inside ++ '}' :: rest)) before.size
      (before.size + 1 + inside.size) := by
  have hbehind : Cursor.rest? ⟨before ++ '{' :: (inside ++ '}' :: rest), before.size⟩ =
      some ('{' :: (inside ++ '}' :: rest)) :=
    Text.from?_eq_some_iff.2 ⟨before, rfl, rfl⟩
  have hclosing : closing? '{' '}' 0 [] (inside ++ '}' :: rest) = some (inside, rest) :=
    (closing?_eq_some_iff (by decide)).2 ⟨inside, rfl, h⟩
  rw [BraceMatches, Cursor.findMatching, hbehind]
  simp only [if_true, hclosing]
  rfl

/-- The characters that have no say in which brace closes which: all but
    quotation marks, the slash that may begin a comment, and the braces
    themselves. -/
def IsNeutral (c : Char) : Prop :=
  c ∉ ['"', '\'', '/', '{', '}']
deriving Decidable

theorem IsIdentifier.isNeutral {name : Text} (h : IsIdentifier name) : ∀ c ∈ name, IsNeutral c := by
  have hnot : ∀ c ∈ ['"', '\'', '/', '{', '}'],
      c ≠ '@' ∧ isIdentifierStart c = false ∧ isIdentifierPart c = false := by decide +kernel
  intro c hc hmem
  obtain ⟨hat, hstart, hpart⟩ := hnot c hmem
  exact h.not_mem hat hstart hpart hc

/-- Neutral characters are passed over one by one. The last of them must not be
    a mark that could make the quotation mark behind it one of another kind of
    string. -/
theorem passes_of_isNeutral {run : Text} (hrun : ∀ c ∈ run, IsNeutral c)
    (hlast : ∀ c ∈ run.getLast?, isStringMark c = false) (rest : Text) :
    Passes '{' '}' (run ++ rest) rest := by
  refine .of_code (reads_code ?_ hlast rest) ?_ ?_
  · intro c hc hmem
    have hneutral : c ∉ ['"', '\'', '/', '{', '}'] := hrun c hc
    exact hneutral (List.mem_append_left ['{', '}'] hmem)
  · exact fun hmem => absurd (hrun _ hmem) (by decide)
  · exact fun hmem => absurd (hrun _ hmem) (by decide)

end Lexical

namespace Indent

/-- Set anew, statements are a line of the declaration, or none if nothing is
    left of them. This is how the declaration, which joins its lines, meets the
    description of statements between two braces. -/
theorem enclosed_eq (statements newIndent lineEnding closeIndent : Text) :
    enclosed statements newIndent lineEnding closeIndent = lineEnding ++
      ((if (reindent statements newIndent lineEnding).isEmpty then []
        else reindent statements newIndent lineEnding ++ lineEnding) ++ closeIndent) := by
  rw [enclosed]
  by_cases hcore : coreLines statements = []
  · have hnil : reindent statements newIndent lineEnding = [] := by
      rw [reindent, hcore]
      rfl
    rw [hnil, hcore]
    rfl
  · have hne : (reindent statements newIndent lineEnding).isEmpty = false :=
      List.isEmpty_eq_false_iff.2 (reindent_ne_nil hcore)
    have hmap : (coreLines statements).map (shift (base statements) newIndent) ≠ [] := by
      simpa using hcore
    rw [hne, ← Text.intercalate_append hmap]
    rfl

end Indent

namespace ConfigurationClass

open Lexical
open Text (IsBreak isIndent isBlank)

/-- The byte of the last character of lines, which for the lines of a
    declaration up to a brace is the byte of that brace. -/
def lastByte (context : Context) (lines : List Text) : Nat :=
  Text.size (context.lineEnding.intercalate lines) - 1

theorem lastByte_eq {context : Context} {lines : List Text} {before : Text} {c : Char}
    (hc : c.utf8Size = 1) (h : context.lineEnding.intercalate lines = before ++ [c]) :
    lastByte context lines = before.size := by
  rw [lastByte, h, Text.size_append, Text.size_cons, hc]
  rfl

/-- In a text with a declaration from the byte `start` on, the brace that ends
    the second line of the declaration is closed by the one that ends the last
    line, and the brace that ends the fourth line by the one that ends the last
    line but one. The lines are those of the template, in which all statements
    count as one. -/
structure BracesMatch (context : Context) (depth : Nat) (block : Block) (t : Text) (start : Nat) :
    Prop where
  ofClass : BraceMatches t
    (start + lastByte context ((declarationLines context depth block).take 2))
    (start + lastByte context (declarationLines context depth block))
  ofMethod : BraceMatches t
    (start + lastByte context ((declarationLines context depth block).take 4))
    (start + lastByte context (declarationLines context depth block).dropLast)

section

variable (context : Context) (depth : Nat) (block : Block)

/-- What comes before the brace that opens the class. -/
def classHead : Text :=
  classLine context depth block ++ (context.lineEnding ++ indentation context depth)

/-- What comes between the brace that opens the class and the one that opens
    the method. -/
def methodHead : Text :=
  context.lineEnding ++ indentation context (depth + 1) ++
    (signature block ++ (context.lineEnding ++ indentation context (depth + 1)))

/-- What comes between the braces of the method: the statements of the block,
    set anew, with the line breaks around them. -/
def methodBody : Text :=
  Indent.enclosed block.content.statements (indentation context (depth + 2)) context.lineEnding
    (indentation context (depth + 1))

/-- What comes between the braces of the class. -/
def classBody : Text :=
  methodHead context depth block ++
    '{' :: (methodBody context depth block ++
      '}' :: (context.lineEnding ++ indentation context depth))

/-- The lines up to each brace, in terms of what comes before, between and
    behind the braces. Both sides of the four equations end with the brace, so
    they give the bytes of all of them. -/
theorem intercalate_declarationLines :
    context.lineEnding.intercalate ((declarationLines context depth block).take 2) =
        classHead context depth block ++ ['{'] ∧
      context.lineEnding.intercalate ((declarationLines context depth block).take 4) =
        classHead context depth block ++ '{' :: methodHead context depth block ++ ['{'] ∧
      context.lineEnding.intercalate (declarationLines context depth block).dropLast =
        classHead context depth block ++
          '{' :: (methodHead context depth block ++ '{' :: methodBody context depth block) ++
            ['}'] ∧
      context.lineEnding.intercalate (declarationLines context depth block) =
        classHead context depth block ++ '{' :: classBody context depth block ++ ['}'] := by
  have hbody : methodBody context depth block = context.lineEnding ++
      ((if (bodyText context depth block).isEmpty then []
        else bodyText context depth block ++ context.lineEnding) ++
        indentation context (depth + 1)) :=
    Indent.enclosed_eq _ _ _ _
  rw [classBody, declarationLines_eq, hbody]
  generalize bodyText context depth block = body
  cases body <;> simp [List.intercalate_cons_cons, classHead, methodHead]

end

section

variable {context : Context} {block : Block} (depth : Nat)

theorem isIndent_of_mem_indentation (hunit : ∀ c ∈ context.settings.indentUnit, isIndent c = true)
    (levels : Nat) :
    ∀ c ∈ indentation context levels, isIndent c = true := by
  intro c hc
  obtain ⟨unit, hunit', hc⟩ := List.mem_flatten.1 hc
  exact hunit c (List.eq_of_mem_replicate hunit' ▸ hc)

/-- A line break and the indentation behind it are white space, which passes
    between any two braces. -/
theorem isBlank_of_mem_newLine (hunit : ∀ c ∈ context.settings.indentUnit, isIndent c = true)
    (heol : IsBreak context.lineEnding) (levels : Nat) :
    ∀ c ∈ context.lineEnding ++ indentation context levels, isBlank c = true := by
  intro c hc
  rcases List.mem_append.1 hc with hc | hc
  · exact heol.isBlank c hc
  · exact Indent.isBlank_of_isIndent (isIndent_of_mem_indentation hunit levels c hc)

theorem mem_signature_iff {c : Char} : c ∈ signature block ↔
    c ∈ "public void Configure(EntityTypeBuilder<".toList ++ "> ".toList ++ [')'] ∨
      c ∈ block.content.typeName ∨
      c ∈ block.content.parameterName := by
  unfold signature
  simp only [List.mem_append]
  tauto

/-- The signature of the method is neutral if the type name is. The parameter
    needs no premise but being an identifier, which is all that a block can
    have in its place. -/
theorem isNeutral_of_mem_signature (htype : ∀ c ∈ block.content.typeName, IsNeutral c)
    (hparameter : IsIdentifier block.content.parameterName) :
    ∀ c ∈ signature block, IsNeutral c := by
  have hfixed : ∀ c ∈ "public void Configure(EntityTypeBuilder<".toList ++ "> ".toList ++ [')'],
    IsNeutral c := by
    decide +kernel
  intro c hc
  rcases mem_signature_iff.1 hc with hc | hc | hc
  · exact hfixed c hc
  · exact htype c hc
  · exact hparameter.isNeutral c hc

variable {rest : Text} (hcloses : Closes '{' '}' block.content.statements rest)
  (hescape : ∀ line ∈ Text.lines block.content.statements, line.getLast? ≠ some '\\')
  (hunit : ∀ c ∈ context.settings.indentUnit, isIndent c = true) (heol : IsBreak context.lineEnding)

include hcloses hescape hunit heol

/-- The body of the method closes the brace before it, whatever follows. It
    holds the statements as a located block has them, and re-indentation
    changes none of what decides about braces. -/
theorem closes_methodBody (other : Text) : Closes '{' '}' (methodBody context depth block) other :=
  Indent.closes_enclosed hcloses hescape (isIndent_of_mem_indentation hunit _) heol
    (isIndent_of_mem_indentation hunit _) other

/-- The body of the class closes the brace before it, since the braces of the
    method within it close each other. -/
theorem closes_classBody (htype : ∀ c ∈ block.content.typeName, IsNeutral c)
    (hparameter : IsIdentifier block.content.parameterName) (other : Text) :
    Closes '{' '}' (classBody context depth block) other := by
  rw [closes_iff_passes (by decide), classBody]
  have hmethod := closes_methodBody depth hcloses hescape hunit heol
    (context.lineEnding ++ indentation context depth ++ '}' :: other)
  have hlast : ∀ c ∈ (signature block).getLast?, isStringMark c = false := by
    intro c hc
    unfold signature at hc
    obtain rfl := Option.some.inj (List.getLast?_concat.symm.trans hc)
    decide
  have hline (levels : Nat) (t : Text) :
      Passes '{' '}' (context.lineEnding ++ indentation context levels ++ t) t :=
    Indent.passes_blanks (isBlank_of_mem_newLine hunit heol levels) t
  have hsignature := passes_of_isNeutral (isNeutral_of_mem_signature htype hparameter) hlast
  have hpasses := (hline (depth + 1) _).trans ((hsignature _).trans ((hline (depth + 1) _).trans
    ((hmethod.passes (by decide) (by decide)).trans (hline depth ('}' :: other)))))
  simpa [methodHead] using hpasses

/-- In any text with the declaration, the braces of the class and of the method
    are closed by those which the template puts last. -/
theorem bracesMatch (htype : ∀ c ∈ block.content.typeName, IsNeutral c)
    (hparameter : IsIdentifier block.content.parameterName) (head tail : Text) :
    BracesMatch context depth block
      (head ++ declaration context depth block ++ tail) head.size := by
  obtain ⟨hclass, hmethod, hmethod', hclass'⟩ := intercalate_declarationLines context depth block
  have hbrace : '{'.utf8Size = 1 := by decide
  constructor
  · rw [lastByte_eq (by decide) hclass, lastByte_eq (by decide) hclass', declaration, hclass']
    have hmatches :=
      (closes_classBody depth hcloses hescape hunit heol htype hparameter tail).braceMatches
        (head ++ classHead context depth block)
    simpa [hbrace, Nat.add_assoc] using hmatches
  · rw [lastByte_eq (by decide) hmethod, lastByte_eq (by decide) hmethod', declaration, hclass']
    have hmatches := (closes_methodBody depth hcloses hescape hunit heol
      (context.lineEnding ++ indentation context depth ++ '}' :: tail)).braceMatches
      (head ++ classHead context depth block ++ '{' :: methodHead context depth block)
    simpa [classBody, hbrace, Nat.add_assoc] using hmatches

end

/-- What a file of its own has before the declaration: the directives and, if
    there is a namespace, its line and its brace. -/
def standaloneHead (context : Context) : Text :=
  importLines context.lineEnding (standaloneUsings context) ++
    if context.classNamespace.isEmpty then []
    else "namespace ".toList ++ context.classNamespace ++ context.lineEnding ++ ['{'] ++
      context.lineEnding

/-- What a file of its own has behind the declaration. -/
def standaloneTail (context : Context) : Text :=
  (if context.classNamespace.isEmpty then [] else context.lineEnding ++ ['}']) ++ context.lineEnding

/-- How deep the declaration stands in a file of its own, one level deeper
    within a namespace than without. -/
def standaloneDepth (context : Context) : Nat :=
  if context.classNamespace.isEmpty then 0 else 1

/-- A file of its own is the declaration between its head and its tail, with
    and without a namespace. -/
theorem standaloneContents_eq (context : Context) (block : Block) :
    standaloneContents context block =
    standaloneHead context ++
      declaration context (standaloneDepth context) block ++ standaloneTail context := by
  unfold standaloneContents standaloneHead standaloneTail standaloneDepth
  split <;> simp only [List.append_assoc, List.nil_append, List.append_nil]

/-- The class for a located block is closed by the last brace of its template
    and its method by the last but one, in a file of its own and in the
    entity's, if no character of the type name has a say in which brace closes
    which and no line of the statements ends with a backslash. The premises on
    the indentation and the line break are those of the settings: white space,
    and a line break that is one. -/
theorem braces_match {receiver document : Text} {block : Block} (context : Context) (folder : Path)
    (hmem : block ∈ Block.locate receiver document)
    (htype : ∀ c ∈ block.content.typeName, IsNeutral c)
    (hescape : ∀ line ∈ Text.lines block.content.statements, line.getLast? ≠ some '\\')
    (hunit : ∀ c ∈ context.settings.indentUnit, isIndent c = true)
    (heol : IsBreak context.lineEnding) :
    (standalone context folder block).contents = standaloneHead context ++
        declaration context (standaloneDepth context) block ++ standaloneTail context ∧
      BracesMatch context (standaloneDepth context) block (standalone context folder block).contents
        (standaloneHead context).size ∧
      (embedded context folder block).contents = declaration context 0 block ∧
      BracesMatch context 0 block (embedded context folder block).contents 0 := by
  obtain ⟨angle, layout, rest, ⟨-, -, -, hformed⟩, -, hname, hstatements⟩ :=
    Block.exists_layout_of_mem_locate hmem
  have hparameter : IsIdentifier block.content.parameterName :=
    hname ▸ hformed.parameter.isIdentifier
  have hcloses := hformed.statements_closes
  rw [← hstatements] at hcloses
  have hmatch (depth : Nat) := bracesMatch depth hcloses hescape hunit heol htype hparameter
  refine ⟨standaloneContents_eq context block, ?_, rfl, ?_⟩
  · have hcontents :
      (standalone context folder block).contents = standaloneContents context block := rfl
    rw [hcontents, standaloneContents_eq]
    exact hmatch _ _ _
  · have hcontents := hmatch 0 [] []
    rw [List.nil_append, List.append_nil] at hcontents
    exact hcontents

/-- Braces in a comment and in a string, and a comment right before the closing
    brace, with a namespace and carriage returns. -/
theorem braces_match_commented :
    ∃ block ∈ Block.locate ['m']
        "m.Entity<A>(e => \x7b // \x7d\n  e.B(\"\x7d\");\n // \x7b\n /* \x7b */\x7d);".toList,
      BracesMatch ⟨{}, [], [], ['N'], ['\r', '\n']⟩ 1 block
        (standalone ⟨{}, [], [], ['N'], ['\r', '\n']⟩ ⟨[]⟩ block).contents
        (standaloneHead ⟨{}, [], [], ['N'], ['\r', '\n']⟩).size := by
  have hmem : ⟨⟨0, 53⟩, ⟨0, 53⟩, [],
    ⟨['A'], ['e'], " // \x7d\n  e.B(\"\x7d\");\n // \x7b\n /* \x7b */".toList⟩⟩ ∈
      Block.locate ['m']
        "m.Entity<A>(e => \x7b // \x7d\n  e.B(\"\x7d\");\n // \x7b\n /* \x7b */\x7d);".toList := by
    decide +kernel
  exact ⟨_, hmem,
    (braces_match _ ⟨[]⟩ hmem (by decide) (by decide +kernel) (by decide) (Or.inr rfl)).2.1⟩

end ConfigurationClass

end EntitySplit
