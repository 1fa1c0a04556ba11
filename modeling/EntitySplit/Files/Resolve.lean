import EntitySplit.Files.Basic

namespace EntitySplit

namespace Files

/-- Where a path leads. It need not be to anything that exists, but the
    directory of the last name has to. -/
inductive Target where
  | file (place : Place) (data : Data)
  | directory (place : Place)
  /-- The last name stands for nothing, in a directory that exists. -/
  | vacant (place : Place)
  /-- The last name is longer than any name may be. Its directory exists. -/
  | unnamable
  deriving DecidableEq, Repr

/-- The bytes that one name may have. -/
def longestName : Nat := 255

/-- The bytes that a path may have, with the one that ends it. -/
def longestPath : Nat := 4096

/-- Follows pieces of a path from a directory. Two dots lead out of a directory
    to the one that holds it, and out of the root to the root. -/
def walk (files : Files) (here : Place) : List Text → Except Cause Target
  | [] => .ok (.directory here)
  | piece :: rest =>
    if piece = [] ∨ piece = ['.'] then walk files here rest
    else if piece = ['.', '.'] then walk files here.dropLast rest
    else if longestName < piece.size then
      if rest.all List.isEmpty then .ok .unnamable else .error .nameTooLong
    else
      let place := here ++ [piece]
      match files.lookup place with
      | some .directory => walk files place rest
      | some (.file data) =>
        if rest.all List.isEmpty then .ok (.file place data) else .error .notDirectory
      | none => if rest.all List.isEmpty then .ok (.vacant place) else .error .notFound

/-- Whether a path ends with a slash, which only a directory should. -/
def endsInSlash (path : Path) : Bool :=
  path.raw.getLast? = some '/'

/-- Follows a path, whether or not a slash ends it. A path that does not begin
    at the root is followed from the working directory. -/
def resolve (files : Files) (path : Path) : Except Cause Target :=
  if path.raw = [] then .error .notFound
  else if '\x00' ∈ path.raw then .error .nullInPath
  else if longestPath ≤ path.raw.size then .error .nameTooLong
  else walk files (if path.isAbsolute then [] else files.workingDirectory) (path.raw.splitOn '/')

/-- What a path leads to, if to anything. -/
def find (files : Files) (path : Path) : Except Cause Target :=
  match resolve files path with
  | .ok (.file place data) =>
    if endsInSlash path then .error .notDirectory else .ok (.file place data)
  | .ok (.vacant _) => .error .notFound
  | .ok .unnamable => .error .nameTooLong
  | result => result

/-- Whether a path leads to a file. -/
def isFile (files : Files) (path : Path) : Bool :=
  match find files path with
  | .ok (.file _ _) => true
  | _ => false

/-- Whether a path leads to a directory. -/
def isDirectory (files : Files) (path : Path) : Bool :=
  match find files path with
  | .ok (.directory _) => true
  | _ => false

end Files

end EntitySplit
