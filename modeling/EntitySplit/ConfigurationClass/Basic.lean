import EntitySplit.Block.Locate
import EntitySplit.Path.Basic
import EntitySplit.Settings.Basic

namespace EntitySplit

/-- Where a generated class goes. -/
inductive Destination where
  /-- A file of its own. -/
  | standalone
  /-- The end of the entity's file. -/
  | embedded
  deriving DecidableEq, Repr

/-- A class generated for a block, with the file that it goes into. -/
structure ConfigurationClass where
  className : Text
  /-- The entity type as the block writes it. -/
  typeName : Text
  path : Path
  destination : Destination
  /-- The whole file, or the class alone if it goes into the entity's file. -/
  contents : Text
  deriving DecidableEq, Repr

namespace ConfigurationClass

/-- What the classes of one document have in common. -/
structure Context where
  settings : Settings
  /-- The `using` directives of the document. -/
  usings : List Text
  /-- The namespace of the document. -/
  documentNamespace : Text
  /-- The namespace of the classes in files of their own. -/
  classNamespace : Text
  lineEnding : Text

/-- The name of the class for a block. -/
def nameFor (settings : Settings) (block : Block) : Text :=
  block.content.simpleName ++ settings.suffix

/-- The file of its own for a class, named after the class. -/
def standalonePath (settings : Settings) (folder : Path) (block : Block) : Path :=
  folder.join ⟨nameFor settings block ++ '.' :: settings.extension⟩

/-- The file of the entity itself, named after the entity, in the same folder
    as the files of classes. -/
def entityPath (settings : Settings) (folder : Path) (block : Block) : Path :=
  folder.join ⟨block.content.simpleName ++ '.' :: settings.extension⟩

end ConfigurationClass

end EntitySplit
