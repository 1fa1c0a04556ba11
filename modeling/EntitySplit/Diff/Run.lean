import EntitySplit.Text.Basic

namespace EntitySplit

namespace Diff

inductive Kind where
  | equal
  | delete
  | insert
  deriving DecidableEq, Repr

/-- Lines that are kept, taken out or put in, with their places in the old and
    the new list. A script is a list of such runs. -/
structure Run where
  kind : Kind
  old : Nat
  new : Nat
  length : Nat
  deriving DecidableEq, Repr

namespace Run

/-- Where the run ends in the old list; inserted lines take no room there. -/
def oldStop (run : Run) : Nat :=
  if run.kind = .insert then run.old else run.old + run.length

/-- Where the run ends in the new list; deleted lines take no room there. -/
def newStop (run : Run) : Nat :=
  if run.kind = .delete then run.new else run.new + run.length

/-- The run `count` lines further on. -/
def moveOn (run : Run) (count : Nat) : Run :=
  { run with old := run.old + count, new := run.new + count }

/-- The run `count` lines further back. -/
def moveBack (run : Run) (count : Nat) : Run :=
  { run with old := run.old - count, new := run.new - count }

/-- The run with `count` more lines at its end. -/
def extend (run : Run) (count : Nat) : Run :=
  { run with length := run.length + count }

/-- The run with `count` more lines at its beginning. -/
def extendBack (run : Run) (count : Nat) : Run :=
  (run.moveBack count).extend count

/-- The run without `count` lines at its end. -/
def shorten (run : Run) (count : Nat) : Run :=
  { run with length := run.length - count }

/-- The run without `count` lines at its beginning. -/
def shortenFront (run : Run) (count : Nat) : Run :=
  (run.moveOn count).shorten count

end Run

/-- How many lines are equal from two places on, up to the stops. -/
def commonStart (old new : Array Text) (i oldStop j newStop : Nat) : Nat :=
  if _h : i < oldStop ∧ j < newStop then
    if old[i]? = new[j]? then commonStart old new (i + 1) oldStop (j + 1) newStop + 1 else 0
  else
    0
termination_by oldStop - i

/-- How many lines are equal before two places, down to the starts. -/
def commonEnd (old new : Array Text) (oldStart i newStart j : Nat) : Nat :=
  if _h : oldStart < i ∧ newStart < j then
    if old[i - 1]? = new[j - 1]? then commonEnd old new oldStart (i - 1) newStart (j - 1) + 1 else 0
  else
    0
termination_by i - oldStart

end Diff

end EntitySplit
