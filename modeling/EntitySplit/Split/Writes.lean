import EntitySplit.ConfigurationClass.Embedded
import EntitySplit.ConfigurationClass.Import
import EntitySplit.ConfigurationClass.Standalone
import EntitySplit.Failure
import EntitySplit.Files.View
import EntitySplit.Text.Line

namespace EntitySplit

namespace Split

/-- A file to be written, with what it will hold. The path need not be the only
    one that names the file. -/
structure PlannedWrite where
  path : Path
  destination : Destination
  contents : Text
  deriving DecidableEq, Repr

/-- Classes and files, each in the order in which they were first planned.
    There is a class for each block, but several may go into one file. -/
structure Outcome where
  classes : List ConfigurationClass := []
  writes : List PlannedWrite := []
  deriving DecidableEq, Repr

/-- Whether a write goes to a path, however the two are written. Paths are
    compared by their components. -/
def PlannedWrite.isTo (write : PlannedWrite) (path : Path) : Bool :=
  write.path.components = path.components

/-- Gives the planned file new contents, or plans one. A file keeps its place
    and the path that it was first planned under. -/
def putWrite (write : PlannedWrite) : List PlannedWrite → List PlannedWrite
  | [] => [write]
  | other :: rest =>
    if other.isTo write.path then { other with contents := write.contents } :: rest
    else other :: putWrite write rest

/-- Adds a class and the file that holds it. -/
def Outcome.add (outcome : Outcome) (made : ConfigurationClass) (contents : Text) : Outcome where
  classes := outcome.classes ++ [made]
  writes := putWrite { path := made.path, destination := made.destination, contents } outcome.writes

/-- What an entity's file will hold by the plan so far, or else what it holds.
    So classes that go into one file are appended one after another. -/
def targetText (view : Files.View) (outcome : Outcome) (typeName : Text) (path : Path) :
    Except Failure Text :=
  match outcome.writes.find? (·.isTo path) with
  | some write => .ok write.contents
  | none =>
    if (view.probe path).isFile then (view.probe path).text.mapError (.read path ·)
    else .error (.missingTarget typeName path)

open ConfigurationClass in
/-- Plans the class of one block. An entity's file keeps its line ending, and a
    class of its own takes that of the document. -/
def addBlock (view : Files.View) (context : Context) (folder : Path) (outcome : Outcome)
    (block : Block) :
    Except Failure Outcome :=
  if context.settings.embed then
    let path := entityPath context.settings folder block
    (targetText view outcome block.content.typeName path).map fun existing =>
      let lineEnding := Text.lineEnding existing
      let made := embedded { context with lineEnding } folder block
      outcome.add made (embedInto existing made.contents (fixedUsings context) lineEnding)
  else
    let made := standalone context folder block
    .ok (outcome.add made made.contents)

/-- Plans the classes of all blocks, in the order of the document. Of those
    that would each be the whole file the last one stays, and the first block
    that cannot be planned ends the planning. -/
def planBlocks (view : Files.View) (context : ConfigurationClass.Context) (folder : Path)
    (blocks : List Block) :
    Except Failure Outcome :=
  blocks.foldlM (addBlock view context folder) {}

end Split

end EntitySplit
