import EntitySplit.Backup.Name
import EntitySplit.Files.Operation
import EntitySplit.Split.Plan

namespace EntitySplit

namespace Split

/-- What a run does to the files, one step at a time. -/
inductive Action where
  | makeDirs (path : Path)
  | copy (source target : Path)
  | write (path : Path) (text : Text)
  deriving DecidableEq, Repr

namespace Action

/-- The path that a failure of the action names. For a copy this is the target,
    whichever of the two is at fault. -/
def path : Action → Path
  | makeDirs path => path
  | copy _ target => target
  | write path _ => path

/-- The files with those that an operation leaves, if it can be done. -/
def keep (files : Files) : Except Files.Cause Files → Files × Except Files.Cause Unit
  | .ok changed => (changed, .ok ())
  | .error cause => (files, .error cause)

def perform (action : Action) (files : Files) : Files × Except Files.Cause Unit :=
  match action with
  | makeDirs path => files.makeDirs path
  | copy source target => keep files (files.copy source target)
  | write path text => keep files (files.writeData path (.text text))

end Action

/-- The files that exist and will be changed, the document first. A file that
    gets several classes is planned once and stands here once. -/
def changedFiles (plan : Plan) : List Path :=
  plan.document.path :: (plan.writes.filter (·.destination = .embedded)).map (·.path)

/-- The backups of a run. -/
def backups (settings : Settings) (stamp : Text) (plan : Plan) : List (Path × Path) :=
  if settings.backup then
    (changedFiles plan).map fun path => (path, Backup.pathFor path stamp)
  else
    []

/-- The actions of a plan in their order: directories first, then backups, then
    the new classes, and the document last. -/
def actions (settings : Settings) (stamp : Text) (plan : Plan) : List Action :=
  .makeDirs plan.outputDir ::
    (backups settings stamp plan).map (fun (source, target) => .copy source target) ++
    plan.writes.map (fun write => .write write.path write.contents) ++
    [.write plan.document.path plan.newText]

/-- Performs actions up to the first that fails. That one is the last one done,
    and what was done before it stays. -/
def performAll : List Action → Files → Files × Except Failure Unit
  | [], files => (files, .ok ())
  | action :: rest, files =>
    match action.perform files with
    | (files, .ok ()) => performAll rest files
    | (files, .error cause) => (files, .error (.write action.path cause))

end Split

end EntitySplit
