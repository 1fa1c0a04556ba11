import EntitySplit.Failure
import EntitySplit.Files.View
import EntitySplit.Path.Absolute

namespace EntitySplit

/-- The source file that holds the blocks, as it was when the run began. -/
structure Document where
  /-- Its absolute path. -/
  path : Path
  text : Text
  deriving DecidableEq, Repr

namespace Document

/-- Reads the document. That it is there is asked of the path as given, and the
    reading is done by the absolute path, which is the one reported from then
    on. -/
def load (view : Files.View) (source : Path) : Except Failure Document :=
  if (view.probe source).isFile then
    match source.absolute? view.workingPath with
    | none => .error (.read source .emptyPath)
    | some path =>
      match (view.probe path).text with
      | .ok text => .ok { path, text }
      | .error cause => .error (.read path cause)
  else
    .error (.sourceNotFound source)

/-- The folder that holds the document, where classes go if nothing else is
    said. -/
def folder (document : Document) : Path :=
  document.path.parent?.getD ⟨['.']⟩

end Document

end EntitySplit
