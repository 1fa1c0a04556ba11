import EntitySplit.ConfigurationClass.Declaration
import EntitySplit.ConfigurationClass.Import

namespace EntitySplit

namespace ConfigurationClass

/-- The directives, each on a line, and an empty line after them. -/
def importLines (lineEnding : Text) (usings : List Text) : Text :=
  usings.flatMap (· ++ lineEnding) ++ if usings.isEmpty then [] else lineEnding

/-- The file for a class: directives, then the class, in its namespace if there
    is one, and a line break at the end. -/
def standaloneContents (context : Context) (block : Block) : Text :=
  let eol := context.lineEnding
  importLines eol (standaloneUsings context) ++
  (if context.classNamespace.isEmpty then
    declaration context 0 block
  else
    "namespace ".toList ++ context.classNamespace ++ eol ++ ['{'] ++ eol ++
      declaration context 1 block ++ eol ++ ['}']) ++
  eol

/-- The class for a block in a file of its own. -/
def standalone (context : Context) (folder : Path) (block : Block) : ConfigurationClass where
  className := nameFor context.settings block
  typeName := block.content.typeName
  path := standalonePath context.settings folder block
  destination := .standalone
  contents := standaloneContents context block

end ConfigurationClass

end EntitySplit
