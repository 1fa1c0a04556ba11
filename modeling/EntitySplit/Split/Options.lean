import EntitySplit.Path.Basic
import EntitySplit.Settings.Basic

namespace EntitySplit

namespace Split

/-- What one run is asked to do: the settings in force and what the command
    line adds to them for this run. -/
structure Options where
  settings : Settings
  /-- Where generated classes go, next to the document if not given. -/
  outputDir : Option Path
  /-- The namespace of the classes in files of their own, that of the document
      if not given. -/
  namespaceName : Option Text
  /-- Whether to change nothing. -/
  dryRun : Bool
  deriving DecidableEq, Repr

end Split

end EntitySplit
