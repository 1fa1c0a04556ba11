import EntitySplit.Path.Basic

namespace EntitySplit

namespace Settings

/-- A folder given by the environment, which counts only if it is absolute. -/
def folder? (value : Option Text) : Option Path :=
  (value.map (⟨·⟩ : Text → Path)).filter (·.isAbsolute)

/-- The user's folder: the one given, or else `.config` at home. -/
def userFolder? (home given : Option Text) : Option Path :=
  (folder? given).or ((folder? home).map fun home => home.join ⟨".config".toList⟩)

/-- The folders of the system: those given, between colons, or else `/etc/xdg`. -/
def systemFolders (given : Option Text) : List Path :=
  match ((given.getD []).splitOn ':').filterMap fun text => folder? (some text) with
  | [] => [⟨"/etc/xdg".toList⟩]
  | folders => folders

/-- The folders for the configuration of programs, as the XDG base directories
    lay them down, the one that counts most first: the user's own and then
    those of the system. -/
def folders (home userGiven systemGiven : Option Text) : List Path :=
  (userFolder? home userGiven).toList ++ systemFolders systemGiven

end Settings

end EntitySplit
