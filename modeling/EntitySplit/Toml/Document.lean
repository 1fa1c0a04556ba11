import EntitySplit.Toml.DateTime
import EntitySplit.Toml.Quoted

namespace EntitySplit

namespace Toml

def isBare (c : Char) : Bool :=
  c.isAlphanum || c = '_' || c = '-'

/-- A key without dots. -/
def simpleKey? (t : Text) : Option (Text × Text) :=
  match t.takeWhile isBare with
  | [] => lineStringOf? t
  | name => some (name, t.dropWhile isBare)

/-- A key, dotted or not. Each round takes a dot, so `rounds` need not exceed
    the length. -/
def keyFrom? (rounds : Nat) (t : Text) : Option (List Text × Text) :=
  match rounds with
  | 0 => none
  | rounds + 1 =>
    (simpleKey? (skipSpaces t)).bind fun (name, rest) =>
      match skipSpaces rest with
      | '.' :: more => (keyFrom? rounds more).map fun (names, rest) => (name :: names, rest)
      | rest => some ([name], rest)

/-- How many names a key may have. -/
def longestKey : Nat := 80

/-- A key that is not too long, and what follows it. -/
def key? (t : Text) : Option (List Text × Text) :=
  (keyFrom? (t.length + 1) t).filter fun (names, _) => names.length ≤ longestKey

def isScalar (c : Char) : Bool :=
  c.isAlphanum || c = '_' || c = '-' || c = '+' || c = '.' || c = ':'

/-- The characters of a value without quotes or brackets. A space stands only
    between a date and a time. -/
def cutScalar (t : Text) : Text × Text :=
  let word := t.takeWhile isScalar
  match t.dropWhile isScalar with
  | ' ' :: c :: rest =>
    if c.isDigit ∧ afterDate? word = some [] then
      (word ++ ' ' :: (c :: rest).takeWhile isScalar, (c :: rest).dropWhile isScalar)
    else
      (word, ' ' :: c :: rest)
  | rest => (word, rest)

def scalar? (word : Text) : Option Value :=
  if word = "true".toList then some (.boolean true)
  else if word = "false".toList then some (.boolean false)
  else ((integer? word).or (float? word)).or (dateTime? word)

/-- The items of an array after its bracket, given how to read a value. Each
    round takes an item. -/
def items? (value? : Text → Option (Value × Text)) (rounds : Nat) (t : Text) :
    Option (List Value × Text) :=
  match rounds with
  | 0 => none
  | rounds + 1 =>
    match skipBlanks t with
    | ']' :: rest => some ([], rest)
    | t =>
      (value? t).bind fun (value, rest) =>
        match skipBlanks rest with
        | ',' :: rest =>
          (items? value? rounds rest).map fun (values, rest) => (value :: values, rest)
        | ']' :: rest => some ([value], rest)
        | _ => none

/-- A key, an equals sign and a value. `skip` drops what may stand around the
    equals sign. -/
def pair? (skip : Text → Text) (value? : Text → Option (Value × Text)) (t : Text) :
    Option ((List Text × Value) × Text) :=
  (key? t).bind fun (key, rest) =>
    match skip rest with
    | '=' :: rest => (value? (skip rest)).map fun (value, rest) => ((key, value), rest)
    | _ => none

/-- The entries of a table in braces, between which and in which lines may end.
    Each round takes an entry. -/
def entries? (value? : Text → Option (Value × Text)) (rounds : Nat) (table : Table) (t : Text) :
    Option (Table × Text) :=
  match rounds with
  | 0 => none
  | rounds + 1 =>
    match skipBlanks t with
    | '}' :: rest => some (table, rest)
    | t => do
      let ((key, value), rest) ← pair? skipBlanks value? t
      let (_, table) ← table.define key value .header
      match skipBlanks rest with
      | ',' :: rest => entries? value? rounds table rest
      | '}' :: rest => some (table, rest)
      | _ => none

/-- How deep arrays and tables may be nested. -/
def deepest : Nat := 80

/-- A value in which arrays and tables may be nested `depth` deep. -/
def value? (depth : Nat) (t : Text) : Option (Value × Text) :=
  match t with
  | '"' :: _ => (string? t).map fun (text, rest) => (.string text, rest)
  | '\'' :: _ => (string? t).map fun (text, rest) => (.string text, rest)
  | '[' :: rest =>
    match depth with
    | 0 => none
    | depth + 1 =>
      (items? (value? depth) (rest.length + 1) rest).map fun (items, rest) => (.array items, rest)
  | '{' :: rest =>
    match depth with
    | 0 => none
    | depth + 1 =>
      (entries? (value? depth) (rest.length + 1) [] rest).map fun (entries, rest) =>
        (.table .braces entries, rest)
  | t =>
    let (word, rest) := cutScalar t
    (scalar? word).map fun value => (value, rest)

/-- A document read so far: its tables, and the path of the table that is being
    filled. Headers say to which table the lines after them belong. -/
structure Reading where
  table : Table := []
  path : List Text := []

/-- Opens the table with a header, or adds one to an array of tables. -/
def Reading.header? (reading : Reading) (append : Bool) (key : List Text) : Option Reading :=
  (key.getLast?).bind fun last =>
    let change := if append then Table.appendTable last else Table.openTable last
    (Table.alter change false key.dropLast .header reading.table).map fun (_, table) => ⟨table, key⟩

/-- Adds a pair to the table that is being filled. -/
def Reading.add? (reading : Reading) (key : List Text) (value : Value) : Option Reading :=
  (Table.alter (fun origin table => table.define key value origin) false reading.path .header
    reading.table).map fun (_, table) => { reading with table }

/-- What stands on one line, and what follows it on the line: a header, a pair
    of key and value, or nothing. -/
def Reading.line? (reading : Reading) : Text → Option (Reading × Text)
  | [] => some (reading, [])
  | '\n' :: t => some (reading, '\n' :: t)
  | '\r' :: t => some (reading, '\r' :: t)
  | '#' :: t => some (reading, '#' :: t)
  | '[' :: '[' :: t =>
    (key? t).bind fun (key, rest) =>
      (Text.after? [']', ']'] rest).bind fun rest => (reading.header? true key).map fun reading =>
        (reading, rest)
  | '[' :: t =>
    (key? t).bind fun (key, rest) =>
      (Text.after? [']'] rest).bind fun rest => (reading.header? false key).map fun reading =>
        (reading, rest)
  | t =>
    (pair? skipSpaces (value? deepest) t).bind fun ((key, value), rest) =>
      (reading.add? key value).map fun reading => (reading, rest)

/-- All lines. Each round takes a line, so `rounds` need not exceed the length. -/
def Reading.lines? (reading : Reading) (rounds : Nat) (t : Text) : Option Table :=
  match rounds with
  | 0 => none
  | rounds + 1 =>
    (reading.line? (skipSpaces t)).bind fun (reading, rest) =>
      match lineEnd? rest with
      | none => none
      | some [] => some reading.table
      | some rest => reading.lines? rounds rest

/-- The tables of a document; none if it is not TOML. A byte order mark at its
    beginning does not count. -/
def read? (t : Text) : Option Table :=
  let t := (Text.after? ['\ufeff'] t).getD t
  Reading.lines? {} (t.length + 1) t

end Toml

end EntitySplit
