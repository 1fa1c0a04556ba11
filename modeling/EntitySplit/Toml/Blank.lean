import EntitySplit.Text.Basic

namespace EntitySplit

namespace Toml

def isSpace (c : Char) : Bool :=
  c = ' ' || c = '\t'

/-- Whether a character may stand as itself in strings and comments. Of the
    control characters only the tab may. -/
def isPrintable (c : Char) : Bool :=
  c = '\t' || (0x20 ≤ c.toNat && c.toNat != 0x7F)

def skipSpaces (t : Text) : Text :=
  t.dropWhile isSpace

/-- What follows the line break at the beginning of a text. -/
def lineBreak? : Text → Option Text
  | '\n' :: t => some t
  | '\r' :: '\n' :: t => some t
  | _ => none

/-- The text without the white space and line breaks at its beginning. -/
def skipEmptyLines : Text → Text
  | ' ' :: t => skipEmptyLines t
  | '\t' :: t => skipEmptyLines t
  | '\n' :: t => skipEmptyLines t
  | '\r' :: '\n' :: t => skipEmptyLines t
  | t => t

/-- The text without the comment at its beginning, if there is one. -/
def skipComment : Text → Text
  | '#' :: t => t.dropWhile isPrintable
  | t => t

/-- What follows the rest of a line on which nothing more stands. -/
def lineEnd? (t : Text) : Option Text :=
  match skipComment (skipSpaces t) with
  | [] => some []
  | rest => lineBreak? rest

/-- The text without the spaces, comments and line breaks at its beginning.
    Each round takes a line, so `rounds` need not exceed the length. -/
def skipLines (rounds : Nat) (t : Text) : Text :=
  match rounds with
  | 0 => t
  | rounds + 1 =>
    let rest := skipComment (skipSpaces t)
    match lineBreak? rest with
    | some after => skipLines rounds after
    | none => rest

/-- The text without all that separates tokens at its beginning: spaces and
    tabs, line breaks and comments. -/
def skipBlanks (t : Text) : Text :=
  skipLines (t.length + 1) t

end Toml

end EntitySplit
