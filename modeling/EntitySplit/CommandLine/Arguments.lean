import EntitySplit.CommandLine.Choice
import EntitySplit.Split.Options

namespace EntitySplit

namespace CommandLine

/-- The choices made so far, in the order in which they were made. None is made
    twice. -/
structure Choices where
  values : List (Setting × Text) := []
  switches : List Switch := []
  deriving DecidableEq, Repr

/-- A complete command line: it names the document, and its switches do not
    contradict each other. -/
structure Arguments where
  document : Path
  config : Option Path
  outputDir : Option Path
  namespaceName : Option Text
  suffix : Option Text
  switches : List Switch
  deriving DecidableEq, Repr

namespace Arguments

def has (arguments : Arguments) (switch : Switch) : Bool :=
  arguments.switches.contains switch

/-- The configured settings as the command line changes them. An empty suffix
    changes nothing, and a switch can turn embedding on and backups off but not
    the other way round. -/
def settings (arguments : Arguments) (configured : Settings) : Settings :=
  { configured with
    suffix := match arguments.suffix with
      | some (c :: rest) => c :: rest
      | _ => configured.suffix
    embed := configured.embed || arguments.has .embed
    backup := configured.backup && !arguments.has .noBackup
    referenceMode :=
      if arguments.has .noReference then .none
      else if arguments.has .aggregate then .aggregate
      else configured.referenceMode }

/-- What the run is to do. -/
def options (arguments : Arguments) (configured : Settings) : Split.Options where
  settings := arguments.settings configured
  outputDir := arguments.outputDir
  namespaceName := arguments.namespaceName
  dryRun := arguments.has .dryRun

end Arguments

end CommandLine

end EntitySplit
