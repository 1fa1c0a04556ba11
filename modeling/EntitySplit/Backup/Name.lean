import EntitySplit.Path.Basic

namespace EntitySplit

namespace Backup

/-- The path of a file's backup: next to the file, under its name with the
    stamp and an extension behind it. Different files have different backups. -/
def pathFor (path : Path) (stamp : Text) : Path :=
  path.withFileName (path.fileName?.getD [] ++ '.' :: stamp ++ ".bak".toList)

end Backup

end EntitySplit
