import EntitySplit.Failure
import EntitySplit.Files.View
import EntitySplit.Settings.File
import EntitySplit.Toml.Document

namespace EntitySplit

namespace Settings

/-- The file in a folder for the configuration of programs: the program's own
    folder there and the file in it. -/
def fileIn (folder : Path) : Path :=
  (folder.join ⟨"dbcontext-splitter".toList⟩).join ⟨"config.toml".toList⟩

/-- The settings in a file. -/
def loadFile (view : Files.View) (path : Path) : Except Failure Settings :=
  match (view.probe path).text with
  | .error cause => .error (.read path cause)
  | .ok text =>
    match (Toml.read? text).bind ofTable? with
    | some settings => .ok settings
    | none => .error (.badSettings path)

/-- The settings in the file asked for, or in the usual one of `folders`. If
    what is found first is no file, as if nothing is found, the defaults apply;
    a file that is asked for has to be there. -/
def load (view : Files.View) (folders : List Path) (asked : Option Path) :
    Except Failure Settings :=
  match asked with
  | some path => loadFile view path
  | none =>
    match (folders.map fileIn).find? fun path => (view.probe path).isThere with
    | none => .ok {}
    | some path => if (view.probe path).isFile then loadFile view path else .ok {}

end Settings

end EntitySplit
