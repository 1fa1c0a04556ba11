import EntitySplit.Files.Resolve

namespace EntitySplit

namespace Files

/-- What a path shows: a file with its contents, a directory, or why there is
    neither. -/
inductive Probe where
  | file (data : Data)
  | directory
  | missing (cause : Cause)
  deriving DecidableEq, Repr

namespace Probe

def isFile : Probe → Bool
  | file _ => true
  | _ => false

/-- Whether there is anything at all. -/
def isThere : Probe → Bool
  | missing _ => false
  | _ => true

/-- The text that a file holds. -/
def text : Probe → Except Cause Text
  | file (.text text) => .ok text
  | file (.binary _) => .error .notText
  | directory => .error .isDirectory
  | missing cause => .error cause

end Probe

/-- The files as they are, seen from a working directory. What is planned reads
    the files through this and nothing else. -/
structure View where
  probe : Path → Probe
  workingPath : Path

/-- What a path shows in a tree of files. -/
def probe (files : Files) (path : Path) : Probe :=
  match find files path with
  | .ok (.file _ data) => .file data
  | .ok (.directory _) => .directory
  | .ok (.vacant _) => .missing .notFound
  | .ok .unnamable => .missing .nameTooLong
  | .error cause => .missing cause

def view (files : Files) : View where
  probe := files.probe
  workingPath := files.workingPath

end Files

end EntitySplit
