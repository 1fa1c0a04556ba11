import EntitySplit.Settings.Basic
import EntitySplit.Toml.Value

namespace EntitySplit

namespace Settings

open Toml

/-- A text by its key, not empty unless the default is. A missing key leaves
    the default, as does an empty text for a setting that makes no sense empty. -/
def textFor? (table : Table) (key : String) (default : Text) : Option Text :=
  match table.lookup key.toList with
  | none => some default
  | some (.string []) => some default
  | some (.string text) => some text
  | some _ => none

def flagFor? (table : Table) (key : String) (default : Bool) : Option Bool :=
  match table.lookup key.toList with
  | none => some default
  | some (.boolean value) => some value
  | some _ => none

def stringOf? : Value → Option Text
  | .string text => some text
  | _ => none

def textsFor? (table : Table) (key : String) (default : List Text) : Option (List Text) :=
  match table.lookup key.toList with
  | none => some default
  | some (.array items) => items.mapM stringOf?
  | some _ => none

def referenceModes : List (Text × ReferenceMode) :=
  [("inline".toList, .inPlace), ("aggregate".toList, .aggregate), ("none".toList, .none)]

/-- Whether a value is an array or a table and empty. -/
def isEmptyCollection : Value → Bool
  | .array items => items.isEmpty
  | .table _ entries => entries.isEmpty
  | _ => false

/-- A mode by its name, or as a table with the name as its one key and nothing
    in it. A name that is not known is a mistake and not the default. -/
def modeFor? (table : Table) (key : String) (default : ReferenceMode) : Option ReferenceMode :=
  match table.lookup key.toList with
  | none => some default
  | some (.string name) => referenceModes.lookup name
  | some (.table _ [(name, value)]) =>
    if isEmptyCollection value then referenceModes.lookup name else none
  | some _ => none

/-- The settings of a configuration file, none if a value is not of its kind. A
    key that is not known says nothing. -/
def ofTable? (table : Table) : Option Settings := do
  let default : Settings := {}
  return { suffix := ← textFor? table "suffix" default.suffix
           indentUnit := ← textFor? table "indent_unit" default.indentUnit
           receiver := ← textFor? table "receiver" default.receiver
           extension := ← textFor? table "extension" default.extension
           extraUsings := ← textsFor? table "extra_usings" default.extraUsings
           referenceMode := ← modeFor? table "reference_mode" default.referenceMode
           backup := ← flagFor? table "backup" default.backup
           embed := ← flagFor? table "embed" default.embed }

end Settings

end EntitySplit
