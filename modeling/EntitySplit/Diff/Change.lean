import EntitySplit.Diff.Run

namespace EntitySplit

namespace Diff

/-- What a preview tells of: lines that stay, lines that go, and lines that
    come. -/
inductive Change where
  /-- `count` lines from `old` and `new` on are the same. -/
  | equal (old new count : Nat)
  /-- `count` lines from `old` on are taken out. -/
  | delete (old count : Nat)
  /-- `count` lines from `new` on are put in. -/
  | insert (new count : Nat)
  /-- Old lines give way to new ones. -/
  | replace (old oldCount new newCount : Nat)
  deriving DecidableEq, Repr

/-- The lines taken out and put in since the last equal lines. -/
structure Pending where
  deleted : Option (Nat × Nat) := none
  inserted : Option (Nat × Nat) := none
  deriving DecidableEq, Repr

namespace Pending

/-- The pending lines as a change, one that replaces if lines were both taken
    out and put in. -/
def change (pending : Pending) : List Change :=
  match pending.deleted, pending.inserted with
  | none, none => []
  | some (old, count), none => [.delete old count]
  | none, some (new, count) => [.insert new count]
  | some (old, oldCount), some (new, newCount) => [.replace old oldCount new newCount]

/-- Adds a run of deleted lines. The place is that of the first of them. -/
def addDeleted (pending : Pending) (run : Run) : Pending :=
  match pending.deleted with
  | some (old, count) => { pending with deleted := some (old, count + run.length) }
  | none => { pending with deleted := some (run.old, run.length) }

/-- Adds a run of inserted lines. The place is that of the first of them. -/
def addInserted (pending : Pending) (run : Run) : Pending :=
  match pending.inserted with
  | some (new, count) => { pending with inserted := some (new, count + run.length) }
  | none => { pending with inserted := some (run.new, run.length) }

end Pending

/-- Puts equal lines before changes, as one with the equal lines that these
    begin with. -/
def consEqual (run : Run) (changes : List Change) : List Change :=
  match changes with
  | .equal _ _ count :: rest => .equal run.old run.new (run.length + count) :: rest
  | changes => .equal run.old run.new run.length :: changes

/-- The changes of a script after pending ones. Lines taken out and put in
    between the same equal lines are one change, in whatever order they stand. -/
def changesFrom (pending : Pending) : List Run → List Change
  | [] => pending.change
  | run :: rest =>
    match run.kind with
    | .equal => pending.change ++ consEqual run (changesFrom {} rest)
    | .delete => changesFrom (pending.addDeleted run) rest
    | .insert => changesFrom (pending.addInserted run) rest

/-- The changes of a script. -/
def changes (runs : List Run) : List Change :=
  changesFrom {} runs

end Diff

end EntitySplit
