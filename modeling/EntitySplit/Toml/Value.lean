import EntitySplit.Text.Basic

namespace EntitySplit

namespace Toml

/-- How a table came about, which decides what may still be added to it. -/
inductive Origin where
  /-- Its own header, or the document itself. -/
  | header
  /-- The header of a table in it. -/
  | implied
  /-- A dotted key. -/
  | dotted
  /-- Braces. It is complete. -/
  | braces
  deriving DecidableEq, Repr

/-- A value of a TOML document. Tables remember how they came about, and floats
    and dates are kept as they are written. -/
inductive Value where
  | string (text : Text)
  | integer (value : Int)
  | float (text : Text)
  | dateTime (text : Text)
  | boolean (value : Bool)
  | array (items : List Value)
  | table (origin : Origin) (entries : List (Text × Value))
  /-- Tables that headers with double brackets add one by one. -/
  | tables (tables : List (List (Text × Value)))
  deriving Repr

/-- Values by their keys. -/
abbrev Table := List (Text × Value)

namespace Table

/-- The table with a value for a key, in the place of an earlier one. -/
def put (key : Text) (value : Value) : Table → Table
  | [] => [(key, value)]
  | (other, old) :: rest =>
    if other = key then (key, value) :: rest else (other, old) :: put key value rest

/-- Changes the table that a path of keys leads to. A table on the way that is
    missing is made, and of tables in an array the last is meant. A dotted key
    does not lead into a table that has a header. -/
def alter (change : Origin → Table → Option (Origin × Table)) (isDotted : Bool) :
    List Text → Origin → Table → Option (Origin × Table)
  | [], origin, table => change origin table
  | key :: path, origin, table =>
    match table.lookup key with
    | none =>
      (alter change isDotted path (if isDotted then .dotted else .implied) []).map
        fun (inner, entries) => (origin, put key (.table inner entries) table)
    | some (.table inner entries) =>
      if inner = .braces ∨ (isDotted ∧ inner = .header) then none
      else
        (alter change isDotted path inner entries).map fun (inner, entries) =>
          (origin, put key (.table inner entries) table)
    | some (.tables tables) =>
      match tables.getLast? with
      | none => none
      | some last =>
        (alter change isDotted path .header last).map fun (_, entries) =>
          (origin, put key (.tables (tables.dropLast ++ [entries])) table)
    | some _ => none

/-- Adds a value. A dotted key adds only to tables that dotted keys made, and
    no other key does; no key adds one where there is one. -/
def addValue (dottedKey : Bool) (key : Text) (value : Value) (origin : Origin) (table : Table) :
    Option (Origin × Table) :=
  if decide (origin = .dotted) != dottedKey then none
  else if (table.lookup key).isSome then none
  else some (origin, put key value table)

/-- Adds a value under a key, dotted or not. -/
def define (key : List Text) (value : Value) (origin : Origin) (table : Table) :
    Option (Origin × Table) :=
  match key.getLast? with
  | none => none
  | some last => alter (addValue (1 < key.length) last value) true key.dropLast origin table

/-- Opens the table of a header. It may have been made by the header of a table
    in it. -/
def openTable (key : Text) (origin : Origin) (table : Table) : Option (Origin × Table) :=
  match table.lookup key with
  | none => some (origin, put key (.table .header []) table)
  | some (.table .implied entries) => some (origin, put key (.table .header entries) table)
  | some _ => none

/-- Adds a table to an array of tables. -/
def appendTable (key : Text) (origin : Origin) (table : Table) : Option (Origin × Table) :=
  match table.lookup key with
  | none => some (origin, put key (.tables [[]]) table)
  | some (.tables tables) => some (origin, put key (.tables (tables ++ [[]])) table)
  | some _ => none

end Table

end Toml

end EntitySplit
