import EntitySplit.Lexical.Matching
import EntitySplit.Lexical.Trivia
import EntitySplit.Lexical.Identifier

namespace EntitySplit

namespace Lexical

/-- A position in a text from which the text is read token by token. The
    position counts bytes and need not be one where the text can be cut: there
    nothing is skipped or matched, and what has to look at the text has no
    answer. -/
structure Cursor where
  text : Text
  position : Nat
  deriving DecidableEq, Repr

namespace Cursor

/-- The text that the cursor has before it. -/
def rest? (cursor : Cursor) : Option Text :=
  cursor.text.from? cursor.position

/-- The cursor that has `rest` before it, `rest` being the end of the text. -/
def before (cursor : Cursor) (rest : Text) : Cursor :=
  { cursor with position := cursor.text.size - rest.size }

/-- Goes past white space and comments, as far as there are any. -/
def skipTrivia (cursor : Cursor) : Cursor :=
  match cursor.rest? with
  | none => cursor
  | some rest => cursor.before (Lexical.skipTrivia rest)

/-- Goes past `expected` if the text goes on with it, and tells whether it
    does. -/
def eat? (cursor : Cursor) (expected : Text) : Option (Bool × Cursor) :=
  cursor.rest?.map fun rest =>
    match Text.after? expected rest with
    | some after => (true, cursor.before after)
    | none => (false, cursor)

/-- Goes past the identifier that the text goes on with, if it does. -/
def identifier? (cursor : Cursor) : Option (Option Text × Cursor) :=
  cursor.rest?.map fun rest =>
    match Lexical.identifier? rest with
    | some (name, after) => (some name, cursor.before after)
    | none => (none, cursor)

/-- The position of the closer of the opener at the cursor, which goes past it.
    A cursor on an opener without a closer goes to the end of the text, and one
    that is not on an opener stays. The position is that of the closer's first
    byte. -/
def findMatching (cursor : Cursor) (opener closer : Char) : Option Nat × Cursor :=
  match cursor.rest? with
  | none => (none, cursor)
  | some [] => (none, cursor)
  | some (c :: rest) =>
    if c = opener then
      match closing? opener closer 0 [] rest with
      | none => (none, cursor.before [])
      | some (inside, after) =>
        (some (cursor.position + c.utf8Size + inside.size), cursor.before after)
    else
      (none, cursor)

end Cursor

end Lexical

end EntitySplit
