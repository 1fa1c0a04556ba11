import EntitySplit.Diff.Snake

namespace EntitySplit

namespace Diff

/-- A run, unless it has no lines. -/
def runOf (kind : Kind) (old new length : Nat) : List Run :=
  if length = 0 then [] else [⟨kind, old, new, length⟩]

/-- The runs of a region whose ends differ, given how to go on with its two
    parts. -/
def scriptBetween (old new : Array Text) (search : Search) (region : Region)
    (recurse : Search → Region → List Run × Search) : List Run × Search :=
  if region.oldCount = 0 then
    (runOf .insert region.oldStart region.newStart region.newCount, search)
  else if region.newCount = 0 then
    (runOf .delete region.oldStart region.newStart region.oldCount, search)
  else
    let search := searchMiddle old new region search
    match search.met with
    | some (x, y) =>
      let first := recurse search { region with oldStop := x, newStop := y }
      let second := recurse first.2 { region with oldStart := x, newStart := y }
      (first.1 ++ second.1, second.2)
    | none =>
      (runOf .delete region.oldStart region.newStart region.oldCount ++
        runOf .insert region.oldStart region.newStart region.newCount, search)

/-- The runs of a region: the equal lines at its two ends, and between them the
    runs of what is left. Each cut leaves smaller parts, so `depth` need not
    exceed the number of lines. -/
def scriptFrom (old new : Array Text) (depth : Nat) (search : Search) (region : Region) :
    List Run × Search :=
  match depth with
  | 0 =>
    (runOf .delete region.oldStart region.newStart region.oldCount ++
      runOf .insert region.oldStart region.newStart region.newCount, search)
  | depth + 1 =>
    let before := commonStart old new region.oldStart region.oldStop region.newStart region.newStop
    let oldStart := region.oldStart + before
    let newStart := region.newStart + before
    let after := commonEnd old new oldStart region.oldStop newStart region.newStop
    let middle : Region := ⟨oldStart, region.oldStop - after, newStart, region.newStop - after⟩
    let between := scriptBetween old new search middle (scriptFrom old new depth)
    (runOf .equal region.oldStart region.newStart before ++ between.1 ++
      runOf .equal middle.oldStop middle.newStop after, between.2)

/-- The runs that lead from the old lines to the new ones. -/
def script (old new : Array Text) : List Run :=
  let frontier := Frontier.ofSize (old.size + new.size)
  (scriptFrom old new (old.size + new.size + 1) { forward := frontier, backward := frontier }
    ⟨0, old.size, 0, new.size⟩).1

end Diff

end EntitySplit
