import EntitySplit.Text.Basic

namespace EntitySplit

/-- What takes the place of the blocks of a document. -/
inductive ReferenceMode where
  /-- Each block gives way to a statement that applies its class. -/
  | inPlace
  /-- The statements stand together where the first block was. -/
  | aggregate
  /-- Nothing. -/
  | none
  deriving DecidableEq, Repr

/-- What can be configured, with the value that applies where nothing is. -/
structure Settings where
  /-- What the name of a generated class adds to the entity's name. -/
  suffix : Text := "Configuration".toList
  /-- One level of indentation. -/
  indentUnit : Text := "    ".toList
  /-- What the blocks are called on. -/
  receiver : Text := "modelBuilder".toList
  /-- The extension of the files written, without a dot. -/
  extension : Text := "cs".toList
  /-- Directives for every generated class besides those of the document. -/
  extraUsings : List Text := ["using Microsoft.EntityFrameworkCore.Metadata.Builders;".toList]
  referenceMode : ReferenceMode := .inPlace
  /-- Whether to keep a copy of a file before it is changed. -/
  backup : Bool := true
  /-- Whether classes go into the entities' own files. -/
  embed : Bool := false
  deriving DecidableEq, Repr

end EntitySplit
