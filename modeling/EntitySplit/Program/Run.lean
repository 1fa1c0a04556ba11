import EntitySplit.CommandLine.Parse
import EntitySplit.Program.Display
import EntitySplit.Settings.Load

namespace EntitySplit

namespace Program

/-- What the program leaves besides the files: its exit code and what it
    prints. -/
structure Outcome where
  exitCode : Nat
  /-- What goes to the standard output. -/
  output : Text
  /-- What goes to the standard error stream, if anything. -/
  complaint : Option Text
  deriving DecidableEq, Repr

/-- What the program is told by its surroundings: where its configuration may
    be, what time it is, and whether to color what it prints. -/
structure Surroundings where
  /-- The folders for the configuration of programs, the first that has one
      counts. -/
  configFolders : List Path
  stamp : Text
  color : Bool

/-- The end of a program that does nothing but say why. -/
def stopped (color : Bool) (stop : CommandLine.Stop) : Outcome where
  exitCode := stop.exitCode
  output :=
    match stop with
    | .displayHelp => usageText
    | .displayVersion => versionText
    | _ => []
  complaint := (mistake? stop).map fun mistake => errorText color mistake.toList

def failed (color : Bool) (failure : Failure) (message : Text) : Outcome where
  exitCode := failure.exitCode
  output := []
  complaint := some (errorText color message)

/-- A failure while the settings are loaded. -/
def settingsFailed (color : Bool) (failure : Failure) : Outcome :=
  failed color failure failure.fullMessage

/-- A failure of the run over a document. -/
def runFailed (color : Bool) (source : Path) (failure : Failure) : Outcome :=
  failed color failure
    ("Failed to split ".toList ++ Failure.quoted source ++ ": ".toList ++ failure.fullMessage)

def succeeded (color : Bool) (report : Split.Report) : Outcome where
  exitCode := 0
  output := reportText color report
  complaint := none

/-- What the program is going to do: nothing more, or actions that lead to an
    outcome if all goes well. -/
inductive Step where
  | finish (outcome : Outcome)
  | act (source : Path) (actions : List Split.Action) (report : Split.Report)

/-- All that the program does before it changes a file. It reads the command
    line, then the settings, then the document, and the first of them that is
    at fault is what the program says. -/
def prepare (view : Files.View) (surroundings : Surroundings) (arguments : List Text) : Step :=
  match CommandLine.parse arguments with
  | .error stop => .finish (stopped surroundings.color stop)
  | .ok arguments =>
    match Settings.load view surroundings.configFolders arguments.config with
    | .error failure => .finish (settingsFailed surroundings.color failure)
    | .ok configured =>
      match Split.prepare view arguments.document
        (arguments.options configured) surroundings.stamp with
      | .error failure => .finish (runFailed surroundings.color arguments.document failure)
      | .ok (actions, report) => .act arguments.document actions report

/-- Runs the program on a tree of files, from its command line to what it
    prints. -/
def run (files : Files) (surroundings : Surroundings) (arguments : List Text) : Files × Outcome :=
  match prepare files.view surroundings arguments with
  | .finish outcome => (files, outcome)
  | .act source actions report =>
    match Split.performAll actions files with
    | (files, .ok ()) => (files, succeeded surroundings.color report)
    | (files, .error failure) => (files, runFailed surroundings.color source failure)

end Program

end EntitySplit
