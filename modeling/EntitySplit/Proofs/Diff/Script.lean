import EntitySplit.Diff.Script
import EntitySplit.Proofs.Diff.Meeting

namespace EntitySplit

namespace Diff

section

variable {old new : Array Text} {lines : Nat} {search : Search} {region : Region}

/-- A run of equal lines leads through them, also when there are none and it is
    left out. -/
theorem along_equal {i j count : Nat} (hsame : Same old new i j count) :
    Along old new ⟨i, j⟩ (runOf .equal i j count) ⟨i + count, j + count⟩ := by
  unfold runOf
  split
  · next hzero =>
    subst hzero
    exact .done _
  · exact leads_singleton_iff.2 ((Run.step_equal_iff rfl).2 ⟨rfl, rfl, hsame, rfl, rfl⟩)

/-- A run of deleted lines leads through the old list, whatever its place in
    the new one says. -/
theorem along_delete (old new : Array Text) (i j j' count : Nat) :
    Along old new ⟨i, j⟩ (runOf .delete i j' count) ⟨i + count, j⟩ := by
  unfold runOf
  split
  · next hzero =>
    subst hzero
    exact .done _
  · exact leads_singleton_iff.2 ((Run.step_delete_iff rfl).2 ⟨rfl, rfl, rfl⟩)

/-- A run of inserted lines leads through the new list, whatever its place in
    the old one says. -/
theorem along_insert (old new : Array Text) (i i' j count : Nat) :
    Along old new ⟨i, j⟩ (runOf .insert i' j count) ⟨i, j + count⟩ := by
  unfold runOf
  split
  · next hzero =>
    subst hzero
    exact .done _
  · exact leads_singleton_iff.2 ((Run.step_insert_iff rfl).2 ⟨rfl, rfl, rfl⟩)

/-- A region of at most so many lines, the number for which the frontiers have
    room. Every part of a region that is cut within it fits as well. -/
structure Region.FitsIn (lines : Nat) (region : Region) : Prop where
  old : region.oldStart ≤ region.oldStop
  new : region.newStart ≤ region.newStop
  lines : region.oldCount + region.newCount ≤ lines

/-- The runs of a region lead through it, and the searches after it still have
    room. The second is carried along because one pair of searches serves all
    regions. -/
def Region.Crossed (old new : Array Text) (lines : Nat) (region : Region)
    (found : List Run × Search) : Prop :=
  Along old new ⟨region.oldStart, region.newStart⟩ found.1 ⟨region.oldStop, region.newStop⟩ ∧
    found.2.HasRoom lines

/-- All old lines may be taken out and all new ones put in. It is what remains
    where the searches do not meet or no more cuts are allowed. -/
theorem along_exchange (old new : Array Text) (hregion : region.FitsIn lines) :
    Along old new ⟨region.oldStart, region.newStart⟩
      (runOf .delete region.oldStart region.newStart region.oldCount ++
      runOf .insert region.oldStart region.newStart region.newCount)
        ⟨region.oldStop, region.newStop⟩ := by
  have hdelete :=
    along_delete old new region.oldStart region.newStart region.newStart region.oldCount
  have hinsert := along_insert old new (region.oldStart + region.oldCount) region.oldStart
    region.newStart region.newCount
  have hstop : region.oldStart + region.oldCount = region.oldStop := Nat.add_sub_cancel' hregion.old
  have hstop' : region.newStart + region.newCount = region.newStop :=
    Nat.add_sub_cancel' hregion.new
  rw [hstop] at hdelete hinsert
  rw [hstop'] at hinsert
  exact hdelete.append hinsert

/-- The runs of a region whose ends differ lead through it if those of its
    parts do. The premise on `recurse` is for regions and searches of the same
    room, which both parts are since the place of the cut lies within the
    region. -/
theorem crossed_scriptBetween {recurse : Search → Region → List Run × Search}
    (hregion : region.FitsIn lines) (hroom : search.HasRoom lines)
    (hrecurse : ∀ search region, Region.FitsIn lines region → search.HasRoom lines →
      region.Crossed old new lines (recurse search region)) :
    region.Crossed old new lines (scriptBetween old new search region recurse) := by
  unfold scriptBetween
  split
  · next hempty =>
    have hexchange := along_exchange old new hregion
    rw [hempty] at hexchange
    exact ⟨hexchange, hroom⟩
  · split
    · next hempty =>
      have hexchange := along_exchange old new hregion
      rw [hempty] at hexchange
      exact ⟨by simpa [runOf] using hexchange, hroom⟩
    · obtain ⟨hroom', hmeet⟩ :=
        searchMiddle_holds old new hregion.old hregion.new hregion.lines hroom
      dsimp only
      split
      · next x y hmet =>
        obtain ⟨hx, hx', hy, hy'⟩ := hmeet x y hmet
        have hlines := hregion.lines
        simp only [Region.oldCount, Region.newCount] at hlines
        have hfirst :=
          hrecurse (searchMiddle old new region search) { region with oldStop := x, newStop := y }
            ⟨hx, hy, by simp only [Region.oldCount, Region.newCount]; omega⟩ hroom'
        have hsecond := hrecurse (recurse (searchMiddle old new region search)
          { region with oldStop := x, newStop := y }).2 { region with oldStart := x, newStart := y }
          ⟨hx', hy', by simp only [Region.oldCount, Region.newCount]; omega⟩ hfirst.2
        exact ⟨hfirst.1.append hsecond.1, hsecond.2⟩
      · exact ⟨along_exchange old new hregion, hroom'⟩

/-- The runs of a region lead through it for every depth, also one at which the
    search gives up: deleting and inserting everything is a script, too. -/
theorem crossed_scriptFrom (depth : Nat) (hregion : region.FitsIn lines)
    (hroom : search.HasRoom lines) :
    region.Crossed old new lines (scriptFrom old new depth search region) := by
  induction depth generalizing search region with
  | zero => exact ⟨along_exchange old new hregion, hroom⟩
  | succ depth ih =>
    rw [scriptFrom]
    dsimp only
    have hbefore :=
      same_commonStart old new region.oldStart region.oldStop region.newStart region.newStop
    have hle := commonStart_le old new region.oldStart region.oldStop region.newStart region.newStop
    generalize commonStart old new region.oldStart region.oldStop region.newStart region.newStop =
      before at *
    have hafter :=
      same_commonEnd old new (region.oldStart + before) region.oldStop (region.newStart + before)
        region.newStop
    have hle' :=
      commonEnd_le old new (region.oldStart + before) region.oldStop (region.newStart + before)
        region.newStop
    generalize commonEnd old new (region.oldStart + before) region.oldStop
      (region.newStart + before) region.newStop =
      after at *
    obtain ⟨hold, hnew, hlines⟩ := hregion
    simp only [Region.oldCount, Region.newCount] at hlines
    have hmiddle :
      Region.FitsIn lines
        ⟨region.oldStart + before, region.oldStop - after, region.newStart + before,
          region.newStop - after⟩ :=
        ⟨by dsimp only; omega, by dsimp only; omega, by
          simp only [Region.oldCount, Region.newCount]; omega⟩
    obtain ⟨hbetween, hroom'⟩ := crossed_scriptBetween hmiddle hroom fun _ _ => ih
    have hend := along_equal hafter
    rw [Nat.sub_add_cancel (by omega), Nat.sub_add_cancel (by omega)] at hend
    exact ⟨((along_equal hbefore).append hbetween).append hend, hroom'⟩

/-- The script leads from the beginning of both lists to their end. No premise
    is needed, as the frontiers are made for as many lines as there are. -/
theorem along_script (old new : Array Text) :
    Along old new ⟨0, 0⟩ (script old new) ⟨old.size, new.size⟩ := by
  have hroom := Frontier.hasRoom_ofSize (old.size + new.size)
  have hregion : Region.FitsIn (old.size + new.size) ⟨0, old.size, 0, new.size⟩ :=
    ⟨Nat.zero_le _, Nat.zero_le _, by simp [Region.oldCount, Region.newCount]⟩
  exact (crossed_scriptFrom _ hregion ⟨hroom, hroom⟩).1

end

end Diff

end EntitySplit
