import EntitySplit.Program.Run
import EntitySplit.Settings.Folder
import Std.Time.Zoned

namespace EntitySplit

namespace Disk

def causeOf : IO.Error → Files.Cause
  | .noFileOrDirectory _ number description => .ofNumber number.toNat description.toList
  | .alreadyExists _ number description => .ofNumber number.toNat description.toList
  | .inappropriateType _ number description => .ofNumber number.toNat description.toList
  | .invalidArgument _ number description => .ofNumber number.toNat description.toList
  | .permissionDenied _ number description => .ofNumber number.toNat description.toList
  | .resourceExhausted _ number description => .ofNumber number.toNat description.toList
  | .otherError number description => .ofNumber number.toNat description.toList
  | error => .other (toString error).toList

/-- Looks at a path. What is there is read at once, as all that is looked at
    will be needed. -/
def probe (path : Path) : IO Files.Probe := do
  if '\x00' ∈ path.raw then
    return .missing .nullInPath
  try
    return .file (Files.Data.ofBytes (← IO.FS.readBinFile (String.ofList path.raw)))
  catch error =>
    match causeOf error with
    | .isDirectory => return .directory
    | cause => return .missing cause

/-- What has been seen, added to by looking at more paths. What was seen last
    counts. -/
def look (seen : List (Path × Files.Probe)) (paths : List Path) :
    IO (List (Path × Files.Probe)) := do
  let found ← paths.mapM fun path => return (path, ← probe path)
  return found ++ seen

/-- The files as they were seen. A path that was not looked at shows nothing. -/
def viewOf (workingPath : Path) (seen : List (Path × Files.Probe)) : Files.View where
  probe path := (seen.lookup path).getD (.missing .notFound)
  workingPath := workingPath

/-- Performs an action. -/
def perform (action : Split.Action) : IO (Except Files.Cause Unit) := do
  if '\x00' ∈ action.path.raw then
    return .error .nullInPath
  try
    match action with
    | .makeDirs path => IO.FS.createDirAll (String.ofList path.raw)
    | .copy source target =>
      IO.FS.writeBinFile (String.ofList target.raw) (← IO.FS.readBinFile (String.ofList source.raw))
    | .write path text => IO.FS.writeFile (String.ofList path.raw) (String.ofList text)
    return .ok ()
  catch error =>
    return .error (causeOf error)

/-- Performs actions up to the first that fails, as `Split.performAll` does on
    a tree of files. -/
def performAll : List Split.Action → IO (Except Failure Unit)
  | [] => return .ok ()
  | action :: rest => do
    match ← perform action with
    | .ok () => performAll rest
    | .error cause => return .error (.write action.path cause)

/-- All that the program will want to see. Which files these are is told by
    what has been seen of the settings and the document before. -/
def lookAhead (workingPath : Path) (configFolders : List Path) (arguments : CommandLine.Arguments) :
    IO Files.View := do
  let configs := arguments.config.toList ++ configFolders.map Settings.fileIn
  let seen ← look [] configs
  let sources := arguments.document :: (arguments.document.absolute? workingPath).toList
  let seen ← look seen sources
  let view := viewOf workingPath seen
  match Settings.load view configFolders arguments.config,
    Document.load view arguments.document with
  | .ok configured, .ok document =>
    let seen ← look seen (Split.entityFiles view (arguments.options configured) document)
    return viewOf workingPath seen
  | _, _ => return view

/-- The stamp of the present second. -/
def stampNow : IO Text := do
  let now ← Std.Time.PlainDateTime.now
  let moment : Moment :=
    ⟨now.year.toInt, now.month.toNat, now.day.toNat, now.hour.toNat, now.minute.toNat,
      now.second.toNat⟩
  return moment.stamp

/-- Whether the output is colored: on a terminal unless `CLICOLOR` is 0, and
    anywhere if `CLICOLOR_FORCE` is set and not 0. -/
def wantsColor : IO Bool := do
  let wished := (← IO.getEnv "CLICOLOR").getD "1" != "0" && (← (← IO.getStdout).isTty)
  return wished || (← IO.getEnv "CLICOLOR_FORCE").getD "0" != "0"

def environment (name : String) : IO (Option Text) := do
  return (← IO.getEnv name).map String.toList

def finish (outcome : Program.Outcome) : IO UInt32 := do
  (← IO.getStdout).putStr (String.ofList outcome.output)
  if let some complaint := outcome.complaint then
    IO.eprintln (String.ofList complaint)
  return UInt32.ofNat outcome.exitCode

/-- The program on a real disk. What it is to do is decided by
    `Program.prepare`, which sees the files that were looked at before; here
    they are looked at and the actions performed. -/
def run (arguments : List Text) : IO UInt32 := do
  let workingPath : Path := ⟨(toString (← IO.currentDir)).toList⟩
  let configFolders :=
    Settings.folders (← environment "HOME") (← environment "XDG_CONFIG_HOME")
      (← environment "XDG_CONFIG_DIRS")
  let view ← match CommandLine.parse arguments with
    | .ok arguments => lookAhead workingPath configFolders arguments
    | .error _ => pure (viewOf workingPath [])
  let surroundings : Program.Surroundings :=
    { configFolders, stamp := ← stampNow, color := ← wantsColor }
  match Program.prepare view surroundings arguments with
  | .finish outcome => finish outcome
  | .act source actions report =>
    match ← performAll actions with
    | .ok () => finish (Program.succeeded surroundings.color report)
    | .error failure => finish (Program.runFailed surroundings.color source failure)

end Disk

end EntitySplit

def main (arguments : List String) : IO UInt32 :=
  EntitySplit.Disk.run (arguments.map String.toList)
