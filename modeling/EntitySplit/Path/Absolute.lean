import EntitySplit.Path.Basic

namespace EntitySplit

namespace Path

/-- The root as a path writes it. Two slashes at the beginning, but not three,
    are kept. -/
def rootText : Text → Text
  | '/' :: '/' :: '/' :: _ => ['/']
  | '/' :: '/' :: _ => ['/', '/']
  | _ => ['/']

def Component.step? : Component → Option Path
  | .root => none
  | .here => none
  | .up => some ⟨['.', '.']⟩
  | .name text => some ⟨text⟩

/-- The absolute form of a path; an empty path has none. Components that say
    nothing are left out. A `..` stays, as its meaning depends on what is on
    the disk, and so does a slash at the end. -/
def absolute? (path workingDirectory : Path) : Option Path :=
  if path.raw = [] then
    none
  else
    let base := if path.isAbsolute then ⟨rootText path.raw⟩ else workingDirectory
    let full := (path.components.filterMap Component.step?).foldl join base
    if path.raw.getLast? = some '/' then some (full.join ⟨[]⟩) else some full

end Path

end EntitySplit
