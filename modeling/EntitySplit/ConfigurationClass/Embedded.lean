import EntitySplit.ConfigurationClass.Declaration
import EntitySplit.Header
import EntitySplit.Text.Line

namespace EntitySplit

namespace ConfigurationClass

/-- The class for a block in the entity's own file, without a namespace of its
    own. -/
def embedded (context : Context) (folder : Path) (block : Block) : ConfigurationClass where
  className := nameFor context.settings block
  typeName := block.content.typeName
  path := entityPath context.settings folder block
  destination := .embedded
  contents := declaration context 0 block

/-- The directives that no line of a file holds yet. -/
def missingUsings (existing : Text) (usings : List Text) : List Text :=
  usings.filter fun directive => !(Text.lines existing).any fun line => Text.trim line = directive

/-- A file with directives added after its last `using` directive, each on a
    line, or at its beginning if it has none. -/
def withUsings (existing : Text) (usings : List Text) (lineEnding : Text) : Text :=
  match Header.splitAfterUsings? existing with
  | some (head, tail) => head ++ usings.flatMap (lineEnding ++ ·) ++ tail
  | none =>
    usings.flatMap (· ++ lineEnding) ++
      (if usings.isEmpty || existing.isEmpty then [] else lineEnding) ++ existing

/-- A file with a declaration appended, after an empty line, and with the
    directives that it lacks. A file whose last line has no line break is given
    one first. -/
def embedInto (existing declaration : Text) (usings : List Text) (lineEnding : Text) : Text :=
  let file := withUsings existing (missingUsings existing usings) lineEnding
  file ++ (if file.isEmpty || Text.endsLine file then [] else lineEnding) ++ lineEnding ++
    declaration ++ lineEnding

end ConfigurationClass

end EntitySplit
