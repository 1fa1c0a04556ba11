import EntitySplit.Diff.Compaction
import EntitySplit.Diff.Hunk
import EntitySplit.Diff.Script
import EntitySplit.Text.Blank
import EntitySplit.Text.Line
import EntitySplit.Style

namespace EntitySplit

namespace Diff

/-- A line number in at least four columns. -/
def lineNumber (index : Nat) : Text :=
  let digits := Nat.toDigits 10 (index + 1)
  List.replicate (4 - digits.length) ' ' ++ digits

/-- A line with its number. -/
def numbered (sign : Char) (lines : Array Text) (index : Nat) : Text :=
  sign :: ' ' :: lineNumber index ++ ": ".toList ++ lines.getD index []

def keptLines (old : Array Text) (start count : Nat) : List Text :=
  (List.range' start count).map (numbered ' ' old)

def deletedLines (color : Bool) (old : Array Text) (start count : Nat) : List Text :=
  (List.range' start count).map fun index => Style.red.paint color (numbered '-' old index)

def insertedLines (color : Bool) (new : Array Text) (start count : Nat) : List Text :=
  (List.range' start count).map fun index => Style.green.paint color (numbered '+' new index)

/-- Whether one line gives way to one that differs in white space only. -/
def onlyBlanksDiffer (old new : Array Text) (oldStart oldCount newStart newCount : Nat) : Bool :=
  oldCount = 1 && newCount = 1 &&
    Text.withoutBlanks (old.getD oldStart []) = Text.withoutBlanks (new.getD newStart [])

/-- The lines that show a change. One that concerns white space only is shown
    as a new line without a sign. -/
def changeLines (color : Bool) (old new : Array Text) : Change → List Text
  | .equal start _ count => keptLines old start count
  | .delete start count => deletedLines color old start count
  | .insert start count => insertedLines color new start count
  | .replace oldStart oldCount newStart newCount =>
    if onlyBlanksDiffer old new oldStart oldCount newStart newCount then
      [numbered ' ' new newStart]
    else
      deletedLines color old oldStart oldCount ++ insertedLines color new newStart newCount

/-- The lines that show hunks, with dots between each two. -/
def hunkLines (color : Bool) (old new : Array Text) : List (List Change) → List Text
  | [] => []
  | [hunk] => hunk.flatMap (changeLines color old new)
  | hunk :: next :: rest =>
    hunk.flatMap (changeLines color old new) ++
      "...".toList :: hunkLines color old new (next :: rest)

/-- The hunks of the change from the old lines to the new ones, each with up to
    two lines of context. -/
def hunksBetween (old new : Array Text) : List (List Change) :=
  hunks 2 (changes (compact old new (script old new)))

/-- The preview of the change from one text to another, line by line. Texts
    that differ only in how their lines end have a preview without lines. -/
def preview (color : Bool) (before after : Text) : Text :=
  if before = after then
    "No changes detected.".toList
  else
    let old := (Text.lines before).toArray
    let new := (Text.lines after).toArray
    ['\n'].intercalate (hunkLines color old new (hunksBetween old new))

end Diff

end EntitySplit
