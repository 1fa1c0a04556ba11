import EntitySplit.Text.Basic

namespace EntitySplit

namespace CommandLine

/-- A choice that takes a value. -/
inductive Setting where
  | document
  | outputDir
  | namespaceName
  | suffix
  | config
  deriving DecidableEq, Repr

/-- Whether the value is a path, which must not be empty. -/
def Setting.isPath : Setting → Bool
  | document => true
  | outputDir => true
  | config => true
  | namespaceName => false
  | suffix => false

/-- A choice that stands alone. -/
inductive Switch where
  | embed
  | noReference
  | aggregate
  | noBackup
  | dryRun
  | verbose
  deriving DecidableEq, Repr

/-- What a command line can choose. Help and the version end the reading, so
    nothing is said of what else was chosen. -/
inductive Choice where
  | setting (setting : Setting)
  | switch (switch : Switch)
  | help
  | version
  deriving DecidableEq, Repr

namespace Choice

/-- The choices by their long names, which two hyphens introduce. A name has to
    be written out. -/
def longNames : List (Text × Choice) :=
  [("dbcontext".toList, setting .document), ("outdir".toList, setting .outputDir),
    ("namespace".toList, setting .namespaceName), ("suffix".toList, setting .suffix),
    ("config".toList, setting .config), ("embed".toList, switch .embed),
    ("no-reference".toList, switch .noReference), ("aggregate".toList, switch .aggregate),
    ("no-backup".toList, switch .noBackup), ("dry-run".toList, switch .dryRun),
    ("verbose".toList, switch .verbose), ("help".toList, help), ("version".toList, version)]

/-- The choices by their letters, which one hyphen introduces and several of
    which may stand behind it. -/
def letters : List (Char × Choice) :=
  [('c', setting .document), ('o', setting .outputDir), ('n', setting .namespaceName),
    ('s', setting .suffix), ('e', switch .embed), ('B', switch .noBackup), ('v', switch .verbose),
    ('h', help), ('V', version)]

end Choice

end CommandLine

end EntitySplit
