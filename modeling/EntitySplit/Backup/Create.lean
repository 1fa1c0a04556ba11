import EntitySplit.Backup.Name
import EntitySplit.Failure
import EntitySplit.Files.Operation

namespace EntitySplit

namespace Backup

/-- Copies a file to its backup, over an older one of the same stamp, and gives
    the backup's path. A failure names the backup, also where the file could
    not be read. -/
def create (files : Files) (path : Path) (stamp : Text) : Files × Except Failure Path :=
  let target := pathFor path stamp
  match files.copy path target with
  | .ok files => (files, .ok target)
  | .error cause => (files, .error (.write target cause))

/-- Makes the backups of several files, one after another, and gives their
    paths. The first that cannot be made is the last one tried, and those made
    before it stay. -/
def createAll (files : Files) (stamp : Text) : List Path → Files × Except Failure (List Path)
  | [] => (files, .ok [])
  | path :: paths =>
    match create files path stamp with
    | (files, .error failure) => (files, .error failure)
    | (files, .ok target) =>
      match createAll files stamp paths with
      | (files, .error failure) => (files, .error failure)
      | (files, .ok targets) => (files, .ok (target :: targets))

end Backup

end EntitySplit
