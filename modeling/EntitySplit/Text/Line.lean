import EntitySplit.Text.Basic

namespace EntitySplit

namespace Text

/-- A line without the carriage return before its line feed, of which there is
    one at most to take off; a lone carriage return within the line is an
    ordinary character. -/
def dropReturn (line : Text) : Text :=
  if line.getLast? = some '\r' then line.dropLast else line

/-- The lines of a text. What follows the last line feed is a line only if it
    is not empty, and keeps a carriage return at its end. -/
def lines (t : Text) : List Text :=
  let pieces := t.splitOn '\n'
  let last := pieces.getLastD []
  pieces.dropLast.map dropReturn ++ if last.isEmpty then [] else [last]

/-- Whether `mark` stands anywhere in a text. -/
def holds (mark : Text) : Text → Bool
  | [] => mark.isEmpty
  | c :: t => (after? mark (c :: t)).isSome || holds mark t

theorem holds_iff {mark t : Text} : holds mark t = true ↔ mark <:+: t := by
  induction t with
  | nil => rw [holds, List.isEmpty_iff, List.infix_nil]
  | cons c t ih => rw [holds, Bool.or_eq_true, isSome_after?_iff, ih, List.infix_cons_iff]

/-- The line ending of a text: `\r\n` if it stands anywhere, else `\n`. A text
    that has both is taken for one of the former. -/
def lineEnding (t : Text) : Text :=
  if holds ['\r', '\n'] t then ['\r', '\n'] else ['\n']

/-- Where the line that holds a position begins: just after the last line feed
    before it. -/
def lineStart? (t : Text) (position : Nat) : Option Nat :=
  (splitAt? t position).map fun (before, _) =>
    size before - size (before.reverse.takeWhile (· != '\n'))

end Text

end EntitySplit
