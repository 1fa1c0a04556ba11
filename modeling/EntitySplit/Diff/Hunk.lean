import EntitySplit.Diff.Change

namespace EntitySplit

namespace Diff

/-- Keeps the last `context` lines if the changes begin with equal lines. -/
def trimFirst (context : Nat) : List Change → List Change
  | .equal old new count :: rest =>
    .equal (old + (count - context)) (new + (count - context)) (count - (count - context)) :: rest
  | changes => changes

/-- Keeps the first `context` lines if the changes end with equal lines. -/
def trimLast (context : Nat) : List Change → List Change
  | [] => []
  | [.equal old new count] => [.equal old new (count - (count - context))]
  | [change] => [change]
  | change :: next :: rest => change :: trimLast context (next :: rest)

/-- A last hunk that holds no change is none. -/
def lastHunk (hunk : List Change) : List (List Change) :=
  match hunk with
  | [] => []
  | [.equal _ _ _] => []
  | hunk => [hunk]

/-- Cuts the changes where there are more than twice `context` equal lines, and
    leaves out those in the middle. `hunk` holds the changes since the last
    cut. -/
def hunksFrom (context : Nat) (hunk : List Change) : List Change → List (List Change)
  | [] => lastHunk hunk
  | .equal old new count :: rest =>
    if 2 * context < count then
      (hunk ++ [.equal old new context]) ::
        hunksFrom context [.equal (old + (count - context)) (new + (count - context)) context] rest
    else
      hunksFrom context (hunk ++ [.equal old new count]) rest
  | change :: rest => hunksFrom context (hunk ++ [change]) rest

/-- The hunks of a list of changes, with up to `context` equal lines before and
    behind what changes. -/
def hunks (context : Nat) (changes : List Change) : List (List Change) :=
  hunksFrom context [] (trimLast context (trimFirst context changes))

end Diff

end EntitySplit
