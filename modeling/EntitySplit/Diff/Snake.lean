import EntitySplit.Diff.Run

namespace EntitySplit

namespace Diff

/-- How far along the old lines a search has come on each diagonal. A diagonal
    is given by how much further that is than along the new lines. A search
    keeps what earlier ones found, as a cut can hang on it. -/
structure Frontier where
  reached : Array Nat
  /-- The index of diagonal 0. -/
  centre : Nat

namespace Frontier

def ofSize (lines : Nat) : Frontier where
  reached := Array.replicate (lines + 5) 0
  centre := lines / 2 + 2

def reach (frontier : Frontier) (diagonal : Int) : Nat :=
  frontier.reached.getD (diagonal + frontier.centre).toNat 0

def set (frontier : Frontier) (diagonal : Int) (x : Nat) : Frontier :=
  { frontier with reached := frontier.reached.setIfInBounds (diagonal + frontier.centre).toNat x }

/-- The best place on a diagonal that one step leads to from its neighbours. At
    the two ends of a turn there is only one neighbour to come from. -/
def step (frontier : Frontier) (turn diagonal : Int) : Nat :=
  if diagonal = -turn ∨
    (diagonal ≠ turn ∧ frontier.reach (diagonal - 1) < frontier.reach (diagonal + 1)) then
    frontier.reach (diagonal + 1)
  else
    frontier.reach (diagonal - 1) + 1

end Frontier

/-- A range of old lines and a range of new ones. -/
structure Region where
  oldStart : Nat
  oldStop : Nat
  newStart : Nat
  newStop : Nat
  deriving DecidableEq, Repr

namespace Region

def oldCount (region : Region) : Nat :=
  region.oldStop - region.oldStart

def newCount (region : Region) : Nat :=
  region.newStop - region.newStart

/-- How many more old lines than new ones there are. -/
def surplus (region : Region) : Int :=
  region.oldCount - region.newCount

end Region

/-- The two searches, and the place where they met. -/
structure Search where
  forward : Frontier
  backward : Frontier
  met : Option (Nat × Nat) := none

/-- Goes on from the starts along one diagonal, as far as lines are equal. If
    the other search has come as far from the other end, they have met where
    this one began to go on. -/
def advance (old new : Array Text) (region : Region) (turn : Int) (search : Search)
    (diagonal : Int) : Search :=
  if search.met.isSome then search
  else
    let x := search.forward.step turn diagonal
    let y := (x : Int) - diagonal
    let equal :=
      if x < region.oldCount ∧ 0 ≤ y ∧ y < region.newCount then
        commonStart old new (region.oldStart + x) region.oldStop
          (region.newStart + y.toNat) region.newStop
      else 0
    let forward := search.forward.set diagonal (x + equal)
    let other := diagonal - region.surplus
    let met :=
      if region.surplus % 2 = 1 ∧ other.natAbs ≤ turn - 1 ∧
          region.oldCount ≤ forward.reach diagonal + search.backward.reach (-other) then
        some (region.oldStart + x, region.newStart + y.toNat)
      else none
    { search with forward, met }

/-- Goes back from the stops along one diagonal, as far as lines are equal. If
    the other search has come as far, they have met where this one stopped. -/
def retreat (old new : Array Text) (region : Region) (turn : Int) (search : Search)
    (diagonal : Int) : Search :=
  if search.met.isSome then search
  else
    let x := search.backward.step turn diagonal
    let y := (x : Int) - diagonal
    let equal :=
      if x < region.oldCount ∧ 0 ≤ y ∧ y < region.newCount then
        commonEnd old new region.oldStart (region.oldStop - x) region.newStart
          (region.newStop - y.toNat)
      else 0
    let backward := search.backward.set diagonal (x + equal)
    let other := diagonal - region.surplus
    let met :=
      if region.surplus % 2 = 0 ∧ other.natAbs ≤ turn ∧
          region.oldCount ≤ backward.reach diagonal + search.forward.reach (-other) then
        some (region.oldStop - (x + equal), region.newStop - (y.toNat + equal))
      else none
    { search with backward, met }

/-- The diagonals of a turn, from the highest down. -/
def diagonals (turn : Nat) : List Int :=
  (List.range (turn + 1)).map fun (i : Nat) => (turn : Int) - 2 * (i : Int)

/-- Both searches for one turn. -/
def takeTurn (old new : Array Text) (region : Region) (search : Search) (turn : Nat) : Search :=
  let search := (diagonals turn).foldl (advance old new region turn) search
  (diagonals turn).foldl (retreat old new region turn) search

/-- Searches a region from both ends, turn by turn, until the two searches
    meet. Where they do the region is cut in two. -/
def searchMiddle (old new : Array Text) (region : Region) (search : Search) : Search :=
  let fresh : Search :=
    { forward := search.forward.set 1 0, backward := search.backward.set 1 0 }
  (List.range ((region.oldCount + region.newCount + 1) / 2 + 1)).foldl
    (takeTurn old new region) fresh

end Diff

end EntitySplit
