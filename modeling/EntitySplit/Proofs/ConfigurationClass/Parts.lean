import EntitySplit.ConfigurationClass.Declaration

namespace EntitySplit

namespace ConfigurationClass

section

variable (context : Context) (depth : Nat) (block : Block)

def indentation (levels : Nat) : Text :=
  Text.replicate levels context.settings.indentUnit

/-- The first line of the class. -/
def classLine : Text :=
  indentation context depth ++ "public class ".toList ++ nameFor context.settings block ++
    " : IEntityTypeConfiguration<".toList ++ block.content.typeName ++ ['>']

/-- The first line of the method without its indentation. -/
def signature : Text :=
  "public void Configure(EntityTypeBuilder<".toList ++ block.content.typeName ++ "> ".toList ++
    block.content.parameterName ++ [')']

/-- The statements as the declaration holds them, set anew two levels deeper
    than the class. -/
def bodyText : Text :=
  Indent.reindent block.content.statements (indentation context (depth + 2)) context.lineEnding

/-- The lines of a declaration, each by a name of its own. A block without
    statements has no line between the braces of the method. -/
theorem declarationLines_eq : declarationLines context depth block =
    [classLine context depth block, indentation context depth ++ ['{'],
      indentation context (depth + 1) ++ signature block,
        indentation context (depth + 1) ++ ['{']] ++
    (if (bodyText context depth block).isEmpty then [] else [bodyText context depth block]) ++
    [indentation context (depth + 1) ++ ['}'], indentation context depth ++ ['}']] := by
  unfold declarationLines classLine signature bodyText indentation
  simp only [List.append_assoc]

end

end ConfigurationClass

end EntitySplit
