import EntitySplit.ConfigurationClass.Basic
import EntitySplit.Indent

namespace EntitySplit

namespace ConfigurationClass

/-- The lines of the declaration, its outermost ones `depth` levels deep. The
    statements count as one line, and there is none for a block without
    statements. -/
def declarationLines (context : Context) (depth : Nat) (block : Block) : List Text :=
  let indent (levels : Nat) := Text.replicate levels context.settings.indentUnit
  let typeName := block.content.typeName
  let body := Indent.reindent block.content.statements (indent (depth + 2)) context.lineEnding
  [indent depth ++ "public class ".toList ++ nameFor context.settings block ++
      " : IEntityTypeConfiguration<".toList ++ typeName ++ ['>'],
    indent depth ++ ['{'],
    indent (depth + 1) ++ "public void Configure(EntityTypeBuilder<".toList ++ typeName ++
      "> ".toList ++ block.content.parameterName ++ [')'],
    indent (depth + 1) ++ ['{']] ++
  (if body.isEmpty then [] else [body]) ++
  [indent (depth + 1) ++ ['}'], indent depth ++ ['}']]

/-- The declaration of the class for a block, without a line break at its end. -/
def declaration (context : Context) (depth : Nat) (block : Block) : Text :=
  context.lineEnding.intercalate (declarationLines context depth block)

end ConfigurationClass

end EntitySplit
