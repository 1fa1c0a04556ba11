import EntitySplit.Split.Action

namespace EntitySplit

namespace Split

/-- What a run did or, in a dry run, would do. It is the same for both but for
    the backups, which a dry run does not name. -/
structure Report where
  documentPath : Path
  /-- One class a block, in the order of the document. -/
  classes : List ConfigurationClass
  writes : List PlannedWrite
  backups : List Path
  /-- The document as it was. -/
  oldText : Text
  /-- The document without its blocks; none if it has no blocks. -/
  newText : Option Text
  warnings : List Text
  dryRun : Bool
  deriving DecidableEq, Repr

/-- The report on a document without blocks, which stays as it is. -/
def emptyReport (options : Options) (document : Document) : Report where
  documentPath := document.path
  classes := []
  writes := []
  backups := []
  oldText := document.text
  newText := none
  warnings := []
  dryRun := options.dryRun

/-- The report on a plan, whether or not it is carried out. It is made
    beforehand, as the plan tells all of it. -/
def reportOn (options : Options) (stamp : Text) (plan : Plan) : Report where
  documentPath := plan.document.path
  classes := plan.classes
  writes := plan.writes
  backups := if options.dryRun then [] else (backups options.settings stamp plan).map (·.2)
  oldText := plan.document.text
  newText := some plan.newText
  warnings := plan.warnings
  dryRun := options.dryRun

/-- What a run will do and report, as far as can be told before it does
    anything. A dry run has no actions. -/
def prepare (view : Files.View) (source : Path) (options : Options) (stamp : Text) :
    Except Failure (List Action × Report) := do
  let document ← Document.load view source
  match ← plan view options document with
  | none => return ([], emptyReport options document)
  | some plan =>
    return (if options.dryRun then [] else actions options.settings stamp plan,
      reportOn options stamp plan)

/-- Runs on a tree of files: load the document, plan, and unless only a preview
    is wanted carry the plan out. A failure of an action takes the place of the
    report. -/
def run (files : Files) (source : Path) (options : Options) (stamp : Text) :
    Files × Except Failure Report :=
  match prepare files.view source options stamp with
  | .error failure => (files, .error failure)
  | .ok (actions, report) =>
    match performAll actions files with
    | (files, .ok ()) => (files, .ok report)
    | (files, .error failure) => (files, .error failure)

end Split

end EntitySplit
