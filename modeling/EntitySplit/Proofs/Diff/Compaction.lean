import EntitySplit.Diff.Compaction
import EntitySplit.Proofs.Diff.Way

namespace EntitySplit

namespace Diff

section

variable {old new : Array Text} {start middle stop : Place} {run : Run}

/-- A run of equal lines that has no lines may be left out. Sliding drops such
    a run where it comes upon one, and the way stays the same. -/
theorem along_of_empty {rest : List Run} (hlength : run.length = 0) (hkind : run.kind = .equal)
    (h : Along old new start (run :: rest) stop) : Along old new start rest stop := by
  obtain ⟨middle, hstep, hrest⟩ := leads_cons_iff.1 h
  obtain ⟨-, -, -, hold, hnew⟩ := (Run.step_equal_iff hkind).1 hstep
  obtain rfl : middle = start := Place.ext (by omega) (by omega)
  exact hrest

/-- Two neighbouring runs of one kind are one run with the lines of both.
    Nothing is asked of the places of the second: that the runs lead on from
    each other already fixes those that matter. -/
theorem along_join {next : Run} {rest : List Run} (hkind : run.kind = next.kind)
    (h : Along old new start (run :: next :: rest) stop) :
    Along old new start (run.extend next.length :: rest) stop := by
  obtain ⟨middle, hstep, hrest⟩ := leads_cons_iff.1 h
  obtain ⟨behind, hstep', hrest⟩ := leads_cons_iff.1 hrest
  refine leads_cons_iff.2 ⟨behind, ?_, hrest⟩
  cases hrun : run.kind with
  | equal =>
    obtain ⟨hold, hnew, hsame, hstop, hstop'⟩ := (Run.step_equal_iff hrun).1 hstep
    obtain ⟨hold', hnew', hsame', hbehind, hbehind'⟩ := (Run.step_equal_iff (hkind ▸ hrun)).1 hstep'
    rw [Run.step_equal_iff (show (run.extend next.length).kind = .equal from hrun)]
    simp only [Run.extend]
    refine ⟨hold, hnew, same_add_iff.2 ⟨hsame, ?_⟩, by omega, by omega⟩
    exact hsame'.part 0 (by omega) (by omega) (by omega)
  | delete =>
    rw [Run.step_delete_iff hrun] at hstep
    rw [Run.step_delete_iff (hkind ▸ hrun)] at hstep'
    rw [Run.step_delete_iff (show (run.extend next.length).kind = .delete from hrun)]
    simp only [Run.extend]
    omega
  | insert =>
    rw [Run.step_insert_iff hrun] at hstep
    rw [Run.step_insert_iff (hkind ▸ hrun)] at hstep'
    rw [Run.step_insert_iff (show (run.extend next.length).kind = .insert from hrun)]
    simp only [Run.extend]
    omega

/-- Deleted lines and inserted lines behind them may change places, in both
    directions. This needs a step of a run to read only the place in its own
    list, which is why `Run.Step` says nothing about the other. -/
theorem along_delete_insert_iff {deleted inserted : Run} {rest : List Run}
    (hdelete : deleted.kind = .delete)
    (hinsert : inserted.kind = .insert) : Along old new start (deleted :: inserted :: rest) stop ↔
      Along old new start (inserted :: deleted :: rest) stop := by
  simp only [leads_cons_iff, Run.step_delete_iff hdelete, Run.step_insert_iff hinsert]
  constructor
  · rintro ⟨middle, hdeleted, behind, hinserted, hrest⟩
    exact ⟨⟨start.old, behind.new⟩, by dsimp only; omega, behind, by dsimp only; omega, hrest⟩
  · rintro ⟨middle, hinserted, behind, hdeleted, hrest⟩
    exact ⟨⟨behind.old, start.new⟩, by dsimp only; omega, behind, by dsimp only; omega, hrest⟩

/-- Neighbouring runs of different kinds may change places if neither keeps
    lines. Then one deletes and the other inserts, whichever comes first, so
    the two directions of `along_delete_insert_iff` cover it. -/
theorem along_swap {next : Run} {rest : List Run} (hkind : run.kind ≠ next.kind)
    (hequal : run.kind ≠ .equal) (hequal' : next.kind ≠ .equal)
    (h : Along old new start (run :: next :: rest) stop) :
    Along old new start (next :: run :: rest) stop := by
  cases hrun : run.kind with
  | equal => exact absurd hrun hequal
  | delete =>
    cases hnext : next.kind with
    | equal => exact absurd hnext hequal'
    | delete => exact absurd (hrun.trans hnext.symm) hkind
    | insert => exact (along_delete_insert_iff hrun hnext).1 h
  | insert =>
    cases hnext : next.kind with
    | equal => exact absurd hnext hequal'
    | delete => exact (along_delete_insert_iff hnext hrun).2 h
    | insert => exact absurd (hrun.trans hnext.symm) hkind

/-- Inserted lines that end as the equal lines before them do may stand that
    much further up. The last `count` equal lines then come to stand behind
    them as a run of their own; `hsame` says that these lines are equal to the
    ones inserted last, which keeps that run one of equal lines. -/
theorem along_slideUp {equal : Run} {rest : List Run} {count : Nat} (hequal : equal.kind = .equal)
    (hinsert : run.kind = .insert) (hcount : count ≤ equal.length)
    (hsame : Same old new (equal.oldStop - count) (run.newStop - count) count)
    (h : Along old new start (equal :: run :: rest) stop) :
    Along old new start (equal.shorten count :: run.moveBack count ::
      ⟨.equal, equal.oldStop - count, run.newStop - count, count⟩ :: rest) stop := by
  obtain ⟨middle, hstep, hrest⟩ := leads_cons_iff.1 h
  obtain ⟨behind, hstep', hrest⟩ := leads_cons_iff.1 hrest
  obtain ⟨hold, hnew, hsame', hstop, hstop'⟩ := (Run.step_equal_iff hequal).1 hstep
  rw [Run.step_insert_iff hinsert] at hstep'
  have hequalStop : equal.oldStop = equal.old + equal.length := by simp [Run.oldStop, hequal]
  have hrunStop : run.newStop = run.new + run.length := by simp [Run.newStop, hinsert]
  rw [hequalStop, hrunStop] at hsame ⊢
  refine leads_cons_iff.2 ⟨⟨middle.old - count, middle.new - count⟩, ?_,
    leads_cons_iff.2
      ⟨⟨middle.old - count, behind.new - count⟩, ?_, leads_cons_iff.2 ⟨behind, ?_, hrest⟩⟩⟩
  · rw [Run.step_equal_iff (show (equal.shorten count).kind = .equal from hequal)]
    simp only [Run.shorten]
    exact ⟨hold, hnew, hsame'.part 0 rfl rfl (by omega), by omega, by omega⟩
  · rw [Run.step_insert_iff (show (run.moveBack count).kind = .insert from hinsert)]
    dsimp only [Run.moveBack]
    exact ⟨by omega, rfl, by omega⟩
  · rw [Run.step_equal_iff rfl]
    dsimp only
    exact ⟨by omega, by omega, hsame, by omega, by omega⟩

/-- Inserted lines that begin as the equal lines behind them do may stand that
    much further down, with the first `count` of the equal lines before them.
    It mirrors `along_slideUp`, and `hsame` is about the lines inserted first. -/
theorem along_slideDown {equal : Run} {rest : List Run} {count : Nat} (hequal : equal.kind = .equal)
    (hinsert : run.kind = .insert) (hcount : count ≤ equal.length)
    (hsame : Same old new equal.old run.new count)
    (h : Along old new start (run :: equal :: rest) stop) :
    Along old new start
      (⟨.equal, equal.old, run.new, count⟩ :: run.moveOn count :: equal.shortenFront count :: rest)
      stop := by
  obtain ⟨middle, hstep, hrest⟩ := leads_cons_iff.1 h
  obtain ⟨behind, hstep', hrest⟩ := leads_cons_iff.1 hrest
  obtain ⟨hold, hnew, hsame', hstop, hstop'⟩ := (Run.step_equal_iff hequal).1 hstep'
  rw [Run.step_insert_iff hinsert] at hstep
  refine leads_cons_iff.2 ⟨⟨start.old + count, start.new + count⟩, ?_,
    leads_cons_iff.2
      ⟨⟨start.old + count, middle.new + count⟩, ?_, leads_cons_iff.2 ⟨behind, ?_, hrest⟩⟩⟩
  · rw [Run.step_equal_iff rfl]
    dsimp only
    exact ⟨by omega, by omega, hsame, rfl, rfl⟩
  · rw [Run.step_insert_iff (show (run.moveOn count).kind = .insert from hinsert)]
    dsimp only [Run.moveOn]
    exact ⟨by omega, rfl, by omega⟩
  · rw [Run.step_equal_iff (show (equal.shortenFront count).kind = .equal from hequal)]
    simp only [Run.shortenFront, Run.shorten, Run.moveOn]
    exact ⟨by omega, by omega, hsame'.part count rfl rfl (by omega), by omega, by omega⟩

end

namespace Focus

section

variable {old new : Array Text} {start stop : Place} {focus : Focus}

/-- The whole script of a focus, with the run in view put back between the runs
    before it, which the focus holds nearest first, and those after it. -/
def runs (focus : Focus) : List Run :=
  focus.before.reverse ++ focus.run :: focus.after

/-- Looking at the run before the one in view does not change the script: it is
    the last of the runs before, written in order. -/
theorem runs_of_before {previous : Run} {before : List Run}
    (hbefore : focus.before = previous :: before) :
    focus.runs = before.reverse ++ previous :: focus.run :: focus.after := by
  rw [runs, hbefore, List.reverse_cons, List.append_assoc, List.singleton_append]

/-- A run that is not of equal lines and has lines to slide up over inserts.
    Deleted lines take no room in the new list, so for them the range searched
    is empty and the count zero; deletions therefore stay where they are. -/
theorem kind_eq_insert_of_commonEnd {run : Run} {oldStart i : Nat} (hkind : run.kind ≠ .equal)
    (hcount : 0 < commonEnd old new oldStart i run.new run.newStop) : run.kind = .insert := by
  cases hrun : run.kind with
  | equal => exact absurd hrun hkind
  | delete =>
    have hle := (commonEnd_le old new oldStart i run.new run.newStop).2
    rw [Run.newStop, if_pos hrun] at hle hcount
    omega
  | insert => rfl

/-- The same for sliding down: a positive count of common lines means that the
    run takes room in the new list. -/
theorem kind_eq_insert_of_commonStart {run : Run} {i oldStop : Nat} (hkind : run.kind ≠ .equal)
    (hcount : 0 < commonStart old new i oldStop run.new run.newStop) : run.kind = .insert := by
  cases hrun : run.kind with
  | equal => exact absurd hrun hkind
  | delete =>
    have hle := (commonStart_le old new i oldStop run.new run.newStop).2
    rw [Run.newStop, if_pos hrun] at hle hcount
    omega
  | insert => rfl

/-- Behind a run that slid up, the lines that it slid over join the equal lines
    which stand there. Sliding up adds them as a run of their own only where no
    equal lines follow. -/
theorem along_slidUp {fresh next : Run} {rest : List Run} {count : Nat}
    (hfresh : fresh.kind = .equal) (hnext : next.kind = .equal) (hcount : fresh.length = count)
    (h : Along old new start (fresh :: next :: rest) stop) :
    Along old new start (next.extendBack count :: rest) stop := by
  have hjoined := along_join (hfresh.trans hnext.symm) h
  obtain ⟨middle, hstep, hrest⟩ := leads_cons_iff.1 h
  obtain ⟨behind, hstep', -⟩ := leads_cons_iff.1 hrest
  rw [Run.step_equal_iff hfresh] at hstep
  rw [Run.step_equal_iff hnext] at hstep'
  have heq : next.extendBack count = fresh.extend next.length := by
    simp only [Run.extendBack, Run.moveBack, Run.extend, Run.mk.injEq]
    exact ⟨hnext.trans hfresh.symm, by omega, by omega, by omega⟩
  rwa [heq]

/-- A slide up over the last `count` lines of the equal run before keeps the
    ends of the script, whether or not it uses those lines up and whether or
    not equal lines stand behind the run. -/
theorem along_runs_slideUp {equal : Run} {before : List Run} {count : Nat}
    (hequal : equal.kind = .equal) (hinsert : focus.run.kind = .insert)
    (hcount : count ≤ equal.length)
    (hsame : Same old new (equal.oldStop - count) (focus.run.newStop - count) count)
    (hbefore : focus.before = equal :: before) (h : Along old new start focus.runs stop) :
    Along old new start (slideUp equal before focus count).runs stop := by
  rw [runs_of_before hbefore] at h
  have hslid := h.exchange fun _ => along_slideUp hequal hinsert hcount hsame
  have hbefore : (slideUp equal before focus count).runs = before.reverse ++
      ((if equal.length = count then [] else [equal.shorten count]) ++
        focus.run.moveBack count :: (slideUp equal before focus count).after) := by
    rw [runs, slideUp]
    split
    · rfl
    · simp
  rw [hbefore]
  refine hslid.exchange fun middle h => ?_
  have hshortened :
    Along old new middle ((if equal.length = count then [] else [equal.shorten count]) ++
        focus.run.moveBack count :: ⟨.equal, equal.oldStop - count, focus.run.newStop - count,
          count⟩ :: focus.after)
        stop := by
      split
      · next hall =>
        have hempty : (equal.shorten count).length = 0 := by simp [Run.shorten, hall]
        exact along_of_empty hempty hequal h
      · exact h
  refine hshortened.exchange fun middle h => ?_
  obtain ⟨behind, hstep, hrest⟩ := leads_cons_iff.1 h
  refine .step hstep ?_
  rw [slideUp]
  dsimp only
  split
  · next next rest hafter =>
    rw [hafter] at hrest
    split
    · next hnext => exact along_slidUp rfl hnext rfl hrest
    · exact hrest
  · next hafter =>
    rwa [hafter] at hrest

/-- A slide down over the first `count` lines of the equal run behind keeps the
    ends of the script, with the same two distinctions on the other side. -/
theorem along_runs_slideDown {equal : Run} {after : List Run} {count : Nat}
    (hequal : equal.kind = .equal) (hinsert : focus.run.kind = .insert)
    (hcount : count ≤ equal.length) (hsame : Same old new equal.old focus.run.new count)
    (hafter : focus.after = equal :: after) (h : Along old new start focus.runs stop) :
    Along old new start (slideDown equal after focus count).runs stop := by
  rw [runs, hafter] at h
  have hslid := h.exchange fun _ => along_slideDown hequal hinsert hcount hsame
  have hshortened :
    Along old new start (focus.before.reverse ++ ⟨.equal, equal.old, focus.run.new, count⟩ ::
        focus.run.moveOn count :: (slideDown equal after focus count).after) stop := by
      refine hslid.exchange fun middle h => ?_
      rw [slideDown]
      dsimp only
      split
      · next hall =>
        obtain ⟨place, hstep, hrest⟩ := leads_cons_iff.1 h
        obtain ⟨place', hstep', hrest⟩ := leads_cons_iff.1 hrest
        have hempty : (equal.shortenFront count).length = 0 := by
          simp [Run.shortenFront, Run.shorten, Run.moveOn, hall]
        exact .step hstep (.step hstep' (along_of_empty hempty hequal hrest))
      · exact h
  rw [runs, slideDown]
  rw [slideDown] at hshortened
  dsimp only at hshortened ⊢
  split
  · next previous rest hbefore =>
    rw [hbefore, List.reverse_cons, List.append_assoc, List.singleton_append] at hshortened
    split
    · next hprevious =>
      rw [List.reverse_cons, List.append_assoc, List.singleton_append]
      exact hshortened.exchange fun _ h => along_join hprevious h
    · simpa using hshortened
  · next hbefore =>
    simpa [hbefore] using hshortened

/-- Sliding the run in view up as far as it goes keeps the ends of the script
    and the kind of the run, by induction along `up`. The run must not be of
    equal lines; the kind is carried along since the run may join others on its
    way. -/
theorem along_up (hkind : focus.run.kind ≠ .equal) (h : Along old new start focus.runs stop) :
    Along old new start (up old new focus).runs stop ∧
      (up old new focus).run.kind = focus.run.kind := by
  fun_induction up old new focus with
  | case1 focus hbefore => exact ⟨h, rfl⟩
  | case2 focus previous before hbefore hequal count hcount ih =>
    have hinsert := kind_eq_insert_of_commonEnd hkind hcount.1
    exact ih hkind
      (along_runs_slideUp hequal hinsert hcount.2 (same_commonEnd old new _ _ _ _) hbefore h)
  | case3 focus previous before hbefore hequal count hcount hempty ih =>
    refine ih hkind ?_
    rw [runs_of_before hbefore] at h
    exact h.exchange fun _ h => along_of_empty hempty hequal h
  | case4 => exact ⟨h, rfl⟩
  | case5 focus previous before hbefore hequal hsame ih =>
    have hprevious : (previous.extend focus.run.length).kind ≠ .equal := hequal
    obtain ⟨halong, hup⟩ := ih hprevious (by
      rw [runs_of_before hbefore] at h
      exact h.exchange fun _ h => along_join hsame h)
    exact ⟨halong, hup.trans hsame⟩
  | case6 focus previous before hbefore hequal hother ih =>
    refine ih hkind ?_
    rw [runs_of_before hbefore] at h
    exact h.exchange fun _ h => along_swap hother hequal hkind h

/-- Sliding the run in view down as far as it goes keeps the ends of the script
    and the kind of the run. Together with `along_up` this covers one turn of
    the compaction. -/
theorem along_down (hkind : focus.run.kind ≠ .equal) (h : Along old new start focus.runs stop) :
    Along old new start (down old new focus).runs stop ∧
      (down old new focus).run.kind = focus.run.kind := by
  fun_induction down old new focus with
  | case1 focus hafter => exact ⟨h, rfl⟩
  | case2 focus next after hafter hequal count hcount ih =>
    have hinsert := kind_eq_insert_of_commonStart hkind hcount.1
    exact ih hkind
      (along_runs_slideDown hequal hinsert hcount.2 (same_commonStart old new _ _ _ _) hafter h)
  | case3 focus next after hafter hequal count hcount hempty ih =>
    refine ih hkind ?_
    rw [runs, hafter] at h
    refine h.exchange fun middle h => ?_
    obtain ⟨place, hstep, hrest⟩ := leads_cons_iff.1 h
    exact .step hstep (along_of_empty hempty hequal hrest)
  | case4 => exact ⟨h, rfl⟩
  | case5 focus next after hafter hequal hsame ih =>
    refine ih hkind ?_
    rw [runs, hafter] at h
    exact h.exchange fun _ h => along_join hsame.symm h
  | case6 focus next after hafter hequal hother ih =>
    refine ih hkind ?_
    rw [runs, hafter] at h
    rw [runs, List.reverse_cons, List.append_assoc, List.singleton_append]
    exact h.exchange fun _ h => along_swap (Ne.symm hother) hkind hequal h

end

end Focus

section

variable {old new : Array Text} {start stop : Place}

/-- A pass over the runs of one kind keeps the ends of the script for any
    number of steps, also for too few: what a pass that stops early leaves is a
    script of the same way. -/
theorem along_compactKind {kind : Kind} (hkind : kind ≠ .equal) (steps : Nat)
    {before runs : List Run} (h : Along old new start (before.reverse ++ runs) stop) :
    Along old new start (compactKind old new kind steps before runs) stop := by
  induction steps generalizing before runs with
  | zero =>
    cases runs with
    | nil => simpa [compactKind] using h
    | cons run rest => exact h
  | succ steps ih =>
    cases runs with
    | nil => simpa [compactKind] using h
    | cons run rest =>
      rw [compactKind]
      split
      · next hrun =>
        have hequal : run.kind ≠ .equal := hrun ▸ hkind
        have hfocus : Along old new start (Focus.runs ⟨before, run, rest⟩) stop := h
        obtain ⟨hup, hupKind⟩ := Focus.along_up hequal hfocus
        obtain ⟨hdown, -⟩ := Focus.along_down (hupKind ▸ hequal) hup
        apply ih
        rwa [List.reverse_cons, List.append_assoc, List.singleton_append]
      · apply ih
        rwa [List.reverse_cons, List.append_assoc, List.singleton_append]

/-- Compaction leaves the way between its ends as it was. Both passes, the one
    for deletions and the one for insertions, are instances of
    `along_compactKind`. -/
theorem along_compact {runs : List Run} (h : Along old new start runs stop) :
    Along old new start (compact old new runs) stop :=
  along_compactKind (by decide) _ (along_compactKind (by decide) _ h)

end

end Diff

end EntitySplit
