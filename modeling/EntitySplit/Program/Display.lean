import EntitySplit.CommandLine.Parse
import EntitySplit.Diff.Preview
import EntitySplit.Split.Run

namespace EntitySplit

namespace Program

def line (text : Text) : Text :=
  text ++ ['\n']

def indented (text : Text) : Text :=
  line ("    ".toList ++ text)

def heading (color : Bool) (text : String) : Text :=
  line (Style.bold.paint color text.toList)

/-- A file written, with a note if the class was appended to it. It is shown by
    its path as planned. -/
def writeLine (color : Bool) (write : Split.PlannedWrite) : Text :=
  match write.destination with
  | .standalone => indented write.path.raw
  | .embedded => indented (write.path.raw ++ ' ' :: Style.dim.paint color "(appended)".toList)

/-- A warning of the run. -/
def warningLine (color : Bool) (warning : Text) : Text :=
  line (Style.yellowBold.paint color "warning:".toList ++ ' ' :: warning)

/-- What would become of the document, as a preview of the lines that change. A
    document without blocks has none. -/
def previewText (color : Bool) (report : Split.Report) : Text :=
  line [] ++ heading color "Dry run, nothing was written. DbContext changes:" ++
    match report.newText with
    | some newText => line (Diff.preview color report.oldText newText)
    | none => []

/-- Where the backups are, below the path of the document. Nothing is printed
    if none were made. -/
def backupText (color : Bool) (report : Split.Report) : Text :=
  match report.backups with
  | [] => []
  | backups =>
    heading color "Backup DbContext file:" ++
      indented ("Original file path: ".toList ++ report.documentPath.raw) ++
      backups.flatMap fun backup => indented ("Backup file path: ".toList ++ backup.raw)

/-- What is printed about a run that went well: the files and the warnings, and
    then the preview of a dry run or the backups of another. -/
def reportText (color : Bool) (report : Split.Report) : Text :=
  heading color "Create configuration files:" ++
    if report.classes.isEmpty then
      indented "No entity definitions found.".toList
    else
      report.writes.flatMap (writeLine color) ++ report.warnings.flatMap (warningLine color) ++
        if report.dryRun then previewText color report else backupText color report

/-- What is printed about a run that went wrong. -/
def errorText (color : Bool) (message : Text) : Text :=
  Style.redBold.paint color "error:".toList ++ ' ' :: message

/-- What is wrong with a command line, if anything is. -/
def mistake? : CommandLine.Stop → Option String
  | .unknownArgument => some "an argument is not known"
  | .invalidValue => some "a value is missing or empty"
  | .tooManyValues => some "a value stands where none is taken"
  | .argumentConflict => some "two arguments do not go together"
  | .missingRequiredArgument => some "the DbContext file is not given (--dbcontext)"
  | .displayHelp => none
  | .displayVersion => none

/-- The name of the program and its version. -/
def versionText : Text :=
  line "dbcontext-splitter 0.1.0".toList

/-- How the program is called. -/
def usageText : Text :=
  ["Splits the Entity blocks of a DbContext into configuration classes.",
    "",
    "Usage: dbcontext-splitter [OPTIONS] --dbcontext <DBCONTEXT>",
    "",
    "Options:",
    "  -c, --dbcontext <DBCONTEXT>  Path to the DbContext file",
    "  -o, --outdir <OUTDIR>        Folder for the generated classes (default: that of the DbContext)",
    "  -n, --namespace <NAMESPACE>  Namespace of the generated classes (default: that of the DbContext)",
    "  -s, --suffix <SUFFIX>        Suffix of the class names (default: Configuration)",
    "  -e, --embed                  Append each class to the file of its entity",
    "      --no-reference           Put nothing in the place of the blocks",
    "      --aggregate              Put all references where the first block was",
    "  -B, --no-backup              Keep no copy of the files changed",
    "      --dry-run                Show what would be written",
    "      --config <CONFIG>        Configuration file",
    "  -v, --verbose                Say more about the run",
    "  -h, --help                   Print help",
    "  -V, --version                Print version"].flatMap fun text => line text.toList

end Program

end EntitySplit
