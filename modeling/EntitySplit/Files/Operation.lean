import EntitySplit.Files.Resolve

namespace EntitySplit

namespace Files

/-- Writes a file, a new one if need be. A slash at the end asks for a
    directory, whatever the name before it, so nothing is written then. -/
def writeData (files : Files) (path : Path) (data : Data) : Except Cause Files :=
  match resolve files path with
  | .ok (.directory _) => .error .isDirectory
  | .ok (.file place _) =>
    if endsInSlash path then .error .isDirectory else .ok (files.put place (.file data))
  | .ok (.vacant place) =>
    if endsInSlash path then .error .isDirectory else .ok (files.put place (.file data))
  | .ok .unnamable => if endsInSlash path then .error .isDirectory else .error .nameTooLong
  | .error cause => .error cause

/-- Copies a file. The target is written like any other, and may be the source
    itself. -/
def copy (files : Files) (source target : Path) : Except Cause Files :=
  match find files source with
  | .ok (.file _ data) => writeData files target data
  | .ok _ => .error .notRegular
  | .error cause => .error cause

/-- Makes a directory in one that exists. -/
def makeDir (files : Files) (path : Path) : Except Cause Files :=
  match resolve files path with
  | .ok (.vacant place) => .ok (files.put place .directory)
  | .ok .unnamable => .error .nameTooLong
  | .ok _ => .error .alreadyExists
  | .error cause => .error cause

/-- Makes a directory and those above it that are missing. What was made before
    a failure stays. That the directory is there already is no failure. -/
def makeDirs (files : Files) (path : Path) : Files × Except Cause Unit :=
  if path.components = [] then
    (files, .ok ())
  else
    match makeDir files path with
    | .ok files => (files, .ok ())
    | .error .notFound =>
      match _hparent : path.parent? with
      | none => (files, .error .noTree)
      | some parent =>
        match makeDirs files parent with
        | (files, .error cause) => (files, .error cause)
        | (files, .ok ()) =>
          match makeDir files path with
          | .ok files => (files, .ok ())
          | .error cause => (files, if isDirectory files path then .ok () else .error cause)
    | .error cause => (files, if isDirectory files path then .ok () else .error cause)
termination_by path.raw.length
decreasing_by exact Path.length_parent?_lt _hparent

end Files

end EntitySplit
