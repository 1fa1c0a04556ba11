import EntitySplit.Diff.Run

namespace EntitySplit

namespace Diff

/-- A script with one of its runs in view. The runs before it stand nearest
    first, so that both neighbours of the run are at hand. -/
structure Focus where
  before : List Run
  run : Run
  after : List Run
  deriving DecidableEq, Repr

namespace Focus

/-- The lines and runs of a list, which each step of sliding over it makes
    fewer. -/
def weight : List Run → Nat
  | [] => 0
  | run :: runs => run.length + 1 + weight runs

@[simp] theorem weight_cons (run : Run) (runs : List Run) :
    weight (run :: runs) = run.length + 1 + weight runs :=
  rfl

/-- Slides the run over the last `count` lines of the equal run before it.
    These lines join the equal lines behind the run, or become a run there. -/
def slideUp (equal : Run) (before : List Run) (focus : Focus) (count : Nat) : Focus where
  before := if equal.length = count then before else equal.shorten count :: before
  run := focus.run.moveBack count
  after :=
    let fresh := ⟨.equal, equal.oldStop - count, focus.run.newStop - count, count⟩
    match focus.after with
    | next :: rest =>
      if next.kind = .equal then next.extendBack count :: rest else fresh :: next :: rest
    | [] => [fresh]

/-- Slides the run over the first `count` lines of the equal run after it.
    These lines join the equal lines in front of the run, or become a run
    there. -/
def slideDown (equal : Run) (after : List Run) (focus : Focus) (count : Nat) : Focus where
  before :=
    let fresh := ⟨.equal, equal.old, focus.run.new, count⟩
    match focus.before with
    | previous :: rest =>
      if previous.kind = .equal then previous.extend count :: rest else fresh :: previous :: rest
    | [] => [fresh]
  run := focus.run.moveOn count
  after := if equal.length = count then after else equal.shortenFront count :: after

/-- Slides the run up as far as it can. It joins runs of its own kind and
    passes over those of the other kind on its way. -/
def up (old new : Array Text) (focus : Focus) : Focus :=
  match _hbefore : focus.before with
  | [] => focus
  | previous :: before =>
    if previous.kind = .equal then
      let count := commonEnd old new previous.old previous.oldStop focus.run.new focus.run.newStop
      if _hcount : 0 < count ∧ count ≤ previous.length then
        up old new (slideUp previous before focus count)
      else if previous.length = 0 then
        up old new { focus with before }
      else
        focus
    else if previous.kind = focus.run.kind then
      up old new { focus with before, run := previous.extend focus.run.length }
    else
      up old new { focus with before, after := previous :: focus.after }
termination_by weight focus.before
decreasing_by
  · simp only [slideUp, _hbefore, weight_cons]
    split
    · omega
    · simp only [weight_cons, Run.shorten]
      omega
  all_goals simp only [_hbefore, weight_cons]; omega

/-- Slides the run down as far as it can, with the same two rules for the runs
    that it meets. -/
def down (old new : Array Text) (focus : Focus) : Focus :=
  match _hafter : focus.after with
  | [] => focus
  | next :: after =>
    if next.kind = .equal then
      let count := commonStart old new next.old next.oldStop focus.run.new focus.run.newStop
      if _hcount : 0 < count ∧ count ≤ next.length then
        down old new (slideDown next after focus count)
      else if next.length = 0 then
        down old new { focus with after }
      else
        focus
    else if next.kind = focus.run.kind then
      down old new { focus with after, run := focus.run.extend next.length }
    else
      down old new { focus with before := next :: focus.before, after }
termination_by weight focus.after
decreasing_by
  · simp only [slideDown, _hafter, weight_cons]
    split
    · omega
    · simp only [weight_cons, Run.shortenFront, Run.shorten, Run.moveOn]
      omega
  all_goals simp only [_hafter, weight_cons]; omega

end Focus

/-- Slides every run of a kind, from the first to the last. A run slides down
    at least as far as it slid up, so `steps` need not exceed the weight of the
    runs. -/
def compactKind (old new : Array Text) (kind : Kind) (steps : Nat) (before runs : List Run) :
    List Run :=
  match steps, runs with
  | _, [] => before.reverse
  | 0, runs => before.reverse ++ runs
  | steps + 1, run :: rest =>
    if run.kind = kind then
      let focus := Focus.down old new (Focus.up old new ⟨before, run, rest⟩)
      compactKind old new kind steps (focus.run :: focus.before) focus.after
    else
      compactKind old new kind steps (run :: before) rest

/-- Slides the deleted runs and then the inserted ones. -/
def compact (old new : Array Text) (runs : List Run) : List Run :=
  let deleted := compactKind old new .delete (Focus.weight runs) [] runs
  compactKind old new .insert (Focus.weight deleted) [] deleted

end Diff

end EntitySplit
