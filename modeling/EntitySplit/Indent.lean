import EntitySplit.Text.Line
import EntitySplit.Text.Blank

namespace EntitySplit

namespace Indent

/-- A line of white space only. -/
def isBlankLine (line : Text) : Bool :=
  line.all Text.isBlank

/-- The spaces and tabs that the first line with anything else begins with.
    This is the indentation to take away from all lines. -/
def base (statements : Text) : Text :=
  match (Text.lines statements).find? (!isBlankLine ·) with
  | some line => line.takeWhile Text.isIndent
  | none => []

/-- The lines from the first to the last that is not blank. Blank lines between
    them are kept. -/
def coreLines (statements : Text) : List Text :=
  let fromFirst := (Text.lines statements).dropWhile isBlankLine
  (fromFirst.reverse.dropWhile isBlankLine).reverse

/-- A line with `newIndent` in the place of `oldIndent`. A line that does not
    have the old one stays as it is, since it may belong to a literal that
    spans lines; so does a blank one. -/
def shift (oldIndent newIndent line : Text) : Text :=
  if isBlankLine line then line
  else
    match Text.after? oldIndent line with
    | some rest => newIndent ++ rest
    | none => line

/-- The statements with `newIndent` in the place of their own indentation,
    their lines joined by `lineEnding` whatever ended them before. -/
def reindent (statements newIndent lineEnding : Text) : Text :=
  lineEnding.intercalate ((coreLines statements).map (shift (base statements) newIndent))

end Indent

end EntitySplit
