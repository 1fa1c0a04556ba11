import EntitySplit.Proofs.Diff.Frontier
import EntitySplit.Proofs.Diff.Way

namespace EntitySplit

namespace Diff

section

variable {old new : Array Text} {region : Region} {lines turn : Nat} {search : Search}

/-- A place within a region, its borders included. Cutting a region at such a
    place gives two parts that are regions again. -/
def Region.Holds (region : Region) (x y : Nat) : Prop :=
  region.oldStart ≤ x ∧ x ≤ region.oldStop ∧ region.newStart ≤ y ∧ y ≤ region.newStop

/-- One of the two searches: what it does on a diagonal in a turn, with its own
    frontier and that of the other. They meet only if `mayMeet` holds, and only
    on diagonals no further than `width` from the other's start. -/
structure Side (region : Region) (turn : Nat) (width : Int) (mayMeet : Prop)
    (go : Search → Int → Search) (own other : Search → Frontier) : Prop where
  met : ∀ search k, search.met.isSome → go search k = search
  other_eq : ∀ search k, other (go search k) = other search
  goes : ∀ search k, search.met = none → ∃ equal,
    (equal = 0 ∨ (own search).step turn k + equal ≤ region.oldCount ∧
      (own search).step turn k - k + equal ≤ region.newCount) ∧
    own (go search k) = (own search).set k ((own search).step turn k + equal) ∧
    (((go search k).met = none ∧ (mayMeet → (k - region.surplus).natAbs ≤ width →
        (own (go search k)).reach k + (other search).reach (-(k - region.surplus)) <
          region.oldCount)) ∨
      ∃ x y, (go search k).met = some (x, y) ∧ mayMeet ∧ (k - region.surplus).natAbs ≤ width ∧
        ((own search).step turn k + equal ≤ region.oldCount →
          (own search).step turn k + equal - k ≤ region.newCount → region.Holds x y))

variable (old new) in
/-- The search from the front is such a side. It looks for the other if the
    surplus is odd, and only on the diagonals that the other came to in the
    turn before. -/
theorem side_advance (turn : Nat) (hold : region.oldStart ≤ region.oldStop)
    (hnew : region.newStart ≤ region.newStop) :
    Side region turn (turn - 1) (region.surplus % 2 = 1)
      (advance old new region turn) Search.forward
      Search.backward where
  met search k hmet := by rw [advance, if_pos hmet]
  other_eq search k := by
    rw [advance]
    split
    · rfl
    · rfl
  goes search k hmet := by
    rw [advance, if_neg (by simp [hmet])]
    dsimp only
    generalize search.forward.step turn k = x
    generalize hequal :
      (if x < region.oldCount ∧ 0 ≤ (x : Int) - k ∧ (x : Int) - k < region.newCount then
        commonStart old new (region.oldStart + x) region.oldStop
          (region.newStart + ((x : Int) - k).toNat)
          region.newStop else 0) = equal
    have hbounds : equal = 0 ∨ x + equal ≤ region.oldCount ∧ x - k + equal ≤ region.newCount := by
      subst hequal
      split
      · next h =>
        have hle := commonStart_le old new (region.oldStart + x) region.oldStop
          (region.newStart + ((x : Int) - k).toNat) region.newStop
        simp only [Region.oldCount, Region.newCount] at h ⊢
        omega
      · exact Or.inl rfl
    refine ⟨equal, hbounds, rfl, ?_⟩
    split
    · next h =>
      refine Or.inr ⟨_, _, rfl, h.1, h.2.1, fun hx hy => ?_⟩
      simp only [Region.oldCount, Region.newCount] at hx hy
      unfold Region.Holds
      omega
    · next h =>
      exact Or.inl ⟨rfl, fun hmeet hwidth => Nat.lt_of_not_le fun hle => h ⟨hmeet, hwidth, hle⟩⟩

variable (old new) in
/-- The search from the back is such a side. It moves second in a turn, so the
    diagonals on which it may meet the other reach one further, and it looks
    for the other if the surplus is even. -/
theorem side_retreat (turn : Nat) (hold : region.oldStart ≤ region.oldStop)
    (hnew : region.newStart ≤ region.newStop) :
    Side region turn turn (region.surplus % 2 = 0) (retreat old new region turn) Search.backward
      Search.forward where
  met search k hmet := by rw [retreat, if_pos hmet]
  other_eq search k := by
    rw [retreat]
    split
    · rfl
    · rfl
  goes search k hmet := by
    rw [retreat, if_neg (by simp [hmet])]
    dsimp only
    generalize search.backward.step turn k = x
    generalize hequal :
      (if x < region.oldCount ∧ 0 ≤ (x : Int) - k ∧ (x : Int) - k < region.newCount then
        commonEnd old new region.oldStart (region.oldStop - x) region.newStart
          (region.newStop - ((x : Int) - k).toNat)
      else 0) = equal
    have hbounds : equal = 0 ∨
        0 ≤ (x : Int) - k ∧ x + equal ≤ region.oldCount ∧ x - k + equal ≤ region.newCount := by
      subst hequal
      split
      · next h =>
        have hle := commonEnd_le old new region.oldStart (region.oldStop - x) region.newStart
          (region.newStop - ((x : Int) - k).toNat)
        simp only [Region.oldCount, Region.newCount] at h ⊢
        omega
      · exact Or.inl rfl
    refine ⟨equal, hbounds.imp_right And.right, rfl, ?_⟩
    split
    · next h =>
      refine Or.inr ⟨_, _, rfl, h.1, h.2.1, fun hx hy => ?_⟩
      simp only [Region.oldCount, Region.newCount] at hx hy
      unfold Region.Holds
      omega
    · next h =>
      exact Or.inl ⟨rfl, fun hmeet hwidth => Nat.lt_of_not_le fun hle => h ⟨hmeet, hwidth, hle⟩⟩

section

variable {width : Int} {mayMeet : Prop} {go : Search → Int → Search} {own other : Search → Frontier}
  {ks : List Int}

/-- Once the searches have met, the rest of a turn changes nothing. -/
theorem Side.foldl_of_met (side : Side region turn width mayMeet go own other)
    (hmet : search.met.isSome) (ks : List Int) : ks.foldl go search = search := by
  induction ks with
  | nil => rfl
  | cons k ks ih => rw [List.foldl_cons, side.met search k hmet, ih]

/-- A side's turn leaves the frontier of the other side as it is, so all its
    diagonals are compared with the same frontier. -/
theorem Side.foldl_other (side : Side region turn width mayMeet go own other) (search : Search)
    (ks : List Int) :
    other (ks.foldl go search) = other search := by
  induction ks generalizing search with
  | nil => rfl
  | cons k ks ih => rw [List.foldl_cons, ih, side.other_eq]

/-- A side's turn keeps the room of its frontier, whether or not it meets the
    other on the way. -/
theorem Side.foldl_hasRoom (side : Side region turn width mayMeet go own other)
    (h : (own search).HasRoom lines)
    (ks : List Int) : (own (ks.foldl go search)).HasRoom lines := by
  induction ks generalizing search with
  | nil => exact h
  | cons k ks ih =>
    rw [List.foldl_cons]
    apply ih
    by_cases hmet : search.met.isSome
    · rwa [side.met search k hmet]
    · obtain ⟨equal, -, hown, -⟩ := side.goes search k (by simpa using hmet)
      rw [hown]
      exact h.set k _

/-- What is known of a frontier before its side's turn: how far it can come,
    and that it can meet the other within the region only. Both parts are about
    the frontier as it was before the turn, since a turn reads what the turn
    before wrote. -/
structure Frontier.Ready (region : Region) (turn : Nat) (width : Int) (mayMeet : Prop)
    (base : Frontier) : Prop where
  comes : ∀ k equal, OnTurn turn k → (equal = 0 ∨ base.step turn k + equal ≤ region.oldCount ∧
    base.step turn k - k + equal ≤ region.newCount) →
      base.Comes region.oldCount region.newCount turn k (base.step turn k + equal)
  within : mayMeet → ∀ k x, OnTurn turn k → (k - region.surplus).natAbs ≤ width →
    base.Comes region.oldCount region.newCount turn k x → x ≤ region.oldCount ∧
      x - k ≤ region.newCount
  ahead : ∀ k : Int, k.natAbs ≤ turn → (turn - k) % 2 = 1 → k ≤ base.reach k

/-- After a side's turn the searches have met within the region, or the side
    has come to all diagonals without meeting the other and has left the rest
    of its frontier alone. The induction is on the diagonals still to be looked
    at; `hbase` says that those already written do not disturb what is read, as
    they are of the other parity. -/
theorem Side.foldl_cases (side : Side region turn width mayMeet go own other) {base : Frontier}
    (hturn : turn ≤ lines / 2 + 1) (hready : base.Ready region turn width mayMeet)
    (hks : ∀ k ∈ ks, OnTurn turn k) (hmet : search.met = none) (hroom : (own search).HasRoom lines)
    (hbase : ∀ k : Int, k.natAbs ≤ lines / 2 + 2 → (turn - k) % 2 = 1 →
      (own search).reach k = base.reach k) :
    (∃ x y, (ks.foldl go search).met = some (x, y) ∧ region.Holds x y) ∨
    ((ks.foldl go search).met = none ∧
      (∀ k ∈ ks, base.Comes region.oldCount region.newCount turn k
        ((own (ks.foldl go search)).reach k) ∧
        (mayMeet → (k - region.surplus).natAbs ≤ width →
          (own (ks.foldl go search)).reach k + (other search).reach (-(k - region.surplus)) <
            region.oldCount)) ∧
      ∀ k ∉ ks, k.natAbs ≤ lines / 2 + 2 →
        (own (ks.foldl go search)).reach k = (own search).reach k) := by
  induction ks generalizing search with
  | nil => exact Or.inr ⟨hmet, by simp, fun k _ _ => rfl⟩
  | cons k ks ih =>
    obtain ⟨hk, hks⟩ := List.forall_mem_cons.1 hks
    have ⟨hlow, hhigh, hparity⟩ := hk
    obtain ⟨equal, hequal, hown, hmeets⟩ := side.goes search k hmet
    have hstep : (own search).step turn k = base.step turn k :=
      Frontier.step_congr (hbase _ (by omega) (by omega)) (hbase _ (by omega) (by omega)) turn
    rw [hstep] at hequal hown hmeets
    have hfound := hready.comes k equal hk hequal
    rw [List.foldl_cons]
    rcases hmeets with ⟨hmet', hapart⟩ | ⟨x, y, hmet', hmeet, hnear, hholds⟩
    · have hreach : (own (go search k)).reach k = base.step turn k + equal := by
        rw [hown]
        exact Frontier.reach_set_self hroom (by omega) _
      have hothers : ∀ k', k'.natAbs ≤ lines / 2 + 2 → k' ≠ k →
          (own (go search k)).reach k' = (own search).reach k' := by
        intro k' hk' hne
        rw [hown]
        exact Frontier.reach_set_of_ne hroom (by omega) hk' hne _
      have hrest := ih hks hmet' (hown ▸ hroom.set k _) fun k' hk' hparity' =>
        (hothers k' hk' (by omega)).trans (hbase k' hk' hparity')
      rw [side.other_eq] at hrest
      rcases hrest with hmeets | ⟨hnone, hcame, hkept⟩
      · exact Or.inl hmeets
      · refine Or.inr ⟨hnone, List.forall_mem_cons.2 ⟨?_, hcame⟩, fun k' hk' hbound => ?_⟩
        · by_cases hagain : k ∈ ks
          · exact hcame k hagain
          · rw [hkept k hagain (by omega)]
            exact ⟨hreach ▸ hfound, hapart⟩
        · rw [List.mem_cons, not_or] at hk'
          rw [hkept k' hk'.2 hbound, hothers k' hbound hk'.1]
    · rw [side.foldl_of_met (by simp [hmet'])]
      obtain ⟨hx, hy⟩ := hready.within hmeet k _ hk hnear hfound
      exact Or.inl ⟨x, y, hmet', hholds hx (by omega)⟩

end

/-- Both searches have come through a turn without meeting. Which of the last
    two fields says something depends on the parity of the surplus, since only
    one of the two sides looks for the other. -/
structure Searched (region : Region) (turn : Nat) (search : Search) : Prop where
  met : search.met = none
  forward : search.forward.Reached region.oldCount region.newCount turn
  backward : search.backward.Reached region.oldCount region.newCount turn
  apart_of_odd :
    region.surplus % 2 = 1 → ∀ k, OnTurn turn k → (k - region.surplus).natAbs ≤ (turn : Int) - 1 →
      search.forward.reach k + search.backward.reach (-(k - region.surplus)) < region.oldCount
  apart_of_even :
    region.surplus % 2 = 0 → ∀ k, OnTurn turn k → (k - region.surplus).natAbs ≤ (turn : Int) →
      search.backward.reach k + search.forward.reach (-(k - region.surplus)) < region.oldCount

/-- Both frontiers have room for all diagonals of a search of that many lines. -/
structure Search.HasRoom (lines : Nat) (search : Search) : Prop where
  forward : search.forward.HasRoom lines
  backward : search.backward.HasRoom lines

variable (hold : region.oldStart ≤ region.oldStop) (hnew : region.newStart ≤ region.newStop)

include hold hnew

/-- A turn keeps the room of both frontiers. -/
theorem Search.HasRoom.takeTurn (h : search.HasRoom lines) (turn : Nat) :
    (takeTurn old new region search turn).HasRoom lines := by
  have hforward := side_advance old new turn hold hnew
  have hbackward := side_retreat old new turn hold hnew
  unfold Diff.takeTurn
  constructor
  · rw [hbackward.foldl_other]
    exact hforward.foldl_hasRoom h.forward _
  · apply hbackward.foldl_hasRoom
    rw [hforward.foldl_other]
    exact h.backward

/-- So does any number of turns; the same two frontiers serve all the regions
    of a script, however often it is cut. -/
theorem Search.HasRoom.foldl_takeTurn (h : search.HasRoom lines) (turns : List Nat) :
    (turns.foldl (Diff.takeTurn old new region) search).HasRoom lines := by
  induction turns generalizing search with
  | nil => exact h
  | cons turn turns ih => exact ih (h.takeTurn hold hnew turn)

/-- Once the searches have met, a turn changes nothing, so the place where they
    first met is the one that is returned. -/
theorem takeTurn_of_met (hmet : search.met.isSome) (turn : Nat) :
    takeTurn old new region search turn = search := by
  unfold takeTurn
  rw [(side_advance old new turn hold hnew).foldl_of_met hmet,
    (side_retreat old new turn hold hnew).foldl_of_met hmet]

omit hold hnew in
/-- After its side's turn a frontier tells how far it has come. The diagonals
    of the turn have it from the turn itself, the ones between them from the
    turn before, as they were kept. -/
theorem Frontier.reached_of_comes {base frontier : Frontier} {n m : Nat}
    (hturn : turn ≤ lines / 2 + 1)
    (hahead : ∀ k : Int, k.natAbs ≤ turn → (turn - k) % 2 = 1 → k ≤ base.reach k)
    (hcomes : ∀ k ∈ diagonals turn, base.Comes n m turn k (frontier.reach k))
    (hkept : ∀ k ∉ diagonals turn, k.natAbs ≤ lines / 2 + 2 → frontier.reach k = base.reach k) :
    frontier.Reached n m turn := by
  have hkept' (k : Int) (hk : k.natAbs ≤ lines / 2 + 2) (hparity : (turn - k) % 2 = 1) :
      frontier.reach k = base.reach k := by
    refine hkept k (fun hmem => ?_) hk
    have ⟨_, _, heven⟩ := mem_diagonals_iff.1 hmem
    omega
  constructor
  · intro k hk
    have ⟨hlow, hhigh, hparity⟩ := hk
    exact (hcomes k (mem_diagonals_iff.2 hk)).congr (hkept' _ (by omega) (by omega)).symm
      (hkept' _ (by omega) (by omega)).symm
  · intro k hk
    by_cases hparity : (turn - k) % 2 = 1
    · rw [hkept' k (by omega) hparity]
      exact hahead k hk hparity
    · exact (hcomes k (mem_diagonals_iff.2 ⟨by omega, by omega, by omega⟩)).ahead

/-- A turn of both sides ends with a meeting within the region, or with both
    having come through the turn. The two premises are what each side knows
    before its own part of the turn. -/
theorem searched_takeTurn (hturn : turn ≤ lines / 2 + 1) (hmet : search.met = none)
    (hroom : search.HasRoom lines)
    (hforward : search.forward.Ready region turn (turn - 1) (region.surplus % 2 = 1))
    (hbackward : search.backward.Ready region turn turn (region.surplus % 2 = 0)) :
    (∃ x y, (takeTurn old new region search turn).met = some (x, y) ∧ region.Holds x y) ∨
      Searched region turn (takeTurn old new region search turn) := by
  have hadvance := side_advance old new turn hold hnew
  have hretreat := side_retreat old new turn hold hnew
  have hdiagonals : ∀ k ∈ diagonals turn, OnTurn turn k := fun k hk => mem_diagonals_iff.1 hk
  have hother := hadvance.foldl_other search (diagonals turn)
  unfold takeTurn
  rcases hadvance.foldl_cases hturn hforward hdiagonals hmet hroom.forward (fun _ _ _ => rfl) with
    ⟨x, y, hmet', hholds⟩ | ⟨hmet', hcame, hkept⟩
  · refine Or.inl ⟨x, y, ?_, hholds⟩
    rwa [hretreat.foldl_of_met (by simp [hmet'])]
  · generalize (diagonals turn).foldl (advance old new region turn) search = middle at *
    have hother' := hretreat.foldl_other middle (diagonals turn)
    rcases hretreat.foldl_cases hturn hbackward hdiagonals hmet' (hother ▸ hroom.backward)
      (fun k _ _ => by rw [hother]) with hmeets | ⟨hmet'', hcame', hkept'⟩
    · exact Or.inl hmeets
    · generalize (diagonals turn).foldl (retreat old new region turn) middle = last at *
      rw [hother] at hkept'
      refine Or.inr ⟨hmet'', ?_, ?_, ?_, ?_⟩
      · rw [hother']
        exact Frontier.reached_of_comes hturn hforward.ahead (fun k hk => (hcame k hk).1) hkept
      · exact Frontier.reached_of_comes hturn hbackward.ahead (fun k hk => (hcame' k hk).1) hkept'
      · intro hodd k hk hwidth
        have ⟨hlow, hhigh, hparity⟩ := hk
        have hnot : -(k - region.surplus) ∉ diagonals turn := by
          intro hmem
          obtain ⟨-, -, heven⟩ := mem_diagonals_iff.1 hmem
          omega
        rw [hother', hkept' _ hnot (by omega)]
        exact (hcame k (mem_diagonals_iff.2 hk)).2 hodd hwidth
      · intro heven k hk hwidth
        rw [hother']
        exact (hcame' k (mem_diagonals_iff.2 hk)).2 heven hwidth

omit hold hnew in
/-- In the first turn the searches stand at their starts. `hwidth` says that
    they look for each other on one diagonal at most. -/
theorem Frontier.ready_zero {base : Frontier} {width : Int} {mayMeet : Prop}
    (hstart : base.reach 1 = 0)
    (hwidth : mayMeet → width ≤ 0) : base.Ready region 0 width mayMeet where
  comes _ _ hk hequal := comes_zero hstart hk hequal
  within hmeet k x hk hin hcomes := by
    have hnear := hcomes.near
    have hzero := hwidth hmeet
    obtain ⟨hlow, hhigh, -⟩ := hk
    unfold Region.surplus at hin
    omega
  ahead k hk hparity := by omega

omit hold hnew in
/-- Having come through a turn without meeting, the search from the front is
    ready for the turn after it. -/
theorem Searched.ready_forward (h : Searched region turn search) :
    search.forward.Ready region (turn + 1) ((turn + 1 : Nat) - 1) (region.surplus % 2 = 1) where
  comes k equal hk hequal := h.forward.comes_succ hk hequal
  within hodd k x hk hin hcomes := by
    have ⟨_, _, hparity⟩ := hk
    exact hcomes.le_of_apart hk h.backward.ahead ((turn : Int) - 1) (by omega) (by omega)
      (by unfold Region.surplus at hodd; omega) (by unfold Region.surplus at hin; omega)
        (h.apart_of_odd hodd)
  ahead k hk hparity := h.forward.ahead k (by omega)

omit hold hnew in
/-- Having come through a turn without meeting, the search from the back is
    ready for the turn after it, whatever the other does first in that turn: it
    writes to its own frontier only. -/
theorem Searched.ready_backward (h : Searched region turn search) :
    search.backward.Ready region (turn + 1) (turn + 1 : Nat) (region.surplus % 2 = 0) where
  comes k equal hk hequal := h.backward.comes_succ hk hequal
  within heven k x hk hin hcomes := by
    have ⟨_, _, hparity⟩ := hk
    exact hcomes.le_of_apart hk h.forward.ahead (turn : Int) (by omega) (by omega)
      (by unfold Region.surplus at heven; omega) (by unfold Region.surplus at hin; omega)
        (h.apart_of_even heven)
  ahead k hk hparity := h.backward.ahead k (by omega)

variable (old new) in
/-- After any number of turns the searches have met within the region or come
    through all turns, by induction on the number of turns. What the frontiers
    hold from earlier regions plays no part but for the two starts, which each
    search writes before its first turn. -/
theorem holds_or_searched (hmet : search.met = none) (hroom : search.HasRoom lines)
    (hforward : search.forward.reach 1 = 0) (hbackward : search.backward.reach 1 = 0) (turn : Nat)
    (hturn : turn ≤ lines / 2 + 1) :
    (∃ x y, ((List.range (turn + 1)).foldl (takeTurn old new region) search).met = some (x, y) ∧
      region.Holds x y) ∨
      Searched region turn ((List.range (turn + 1)).foldl (takeTurn old new region) search) := by
  induction turn with
  | zero =>
    exact searched_takeTurn hold hnew hturn hmet hroom (Frontier.ready_zero hforward (by simp))
      (Frontier.ready_zero hbackward (by simp))
  | succ turn ih =>
    have hroom' : ((List.range (turn + 1)).foldl (takeTurn old new region) search).HasRoom lines :=
      hroom.foldl_takeTurn hold hnew _
    rw [List.range_succ, List.foldl_append, List.foldl_cons, List.foldl_nil]
    rcases ih (by omega) with ⟨x, y, hmet', hholds⟩ | hsearched
    · refine Or.inl ⟨x, y, ?_, hholds⟩
      rwa [takeTurn_of_met hold hnew (by simp [hmet'])]
    · exact searched_takeTurn hold hnew hturn hsearched.met hroom' hsearched.ready_forward
        hsearched.ready_backward

variable (old new) in
/-- Where the searches meet, a region can be cut: the place lies within it.
    They need not meet, and nothing is said of how good the cut is, since the
    lines are all told of with any cut. -/
theorem searchMiddle_holds (hlines : region.oldCount + region.newCount ≤ lines)
    (hroom : search.HasRoom lines) :
    (searchMiddle old new region search).HasRoom lines ∧
      ∀ x y, (searchMiddle old new region search).met = some (x, y) → region.Holds x y := by
  have hfresh :
    Search.HasRoom lines
      { forward := search.forward.set 1 0, backward := search.backward.set 1 0 } :=
    ⟨hroom.forward.set 1 0, hroom.backward.set 1 0⟩
  refine ⟨hfresh.foldl_takeTurn hold hnew _, fun x y hmet => ?_⟩
  unfold searchMiddle at hmet
  dsimp only at hmet
  rcases holds_or_searched old new hold hnew rfl hfresh
    (Frontier.reach_set_self hroom.forward (by omega) 0)
      (Frontier.reach_set_self hroom.backward (by omega) 0)
    ((region.oldCount + region.newCount + 1) / 2) (by omega) with
      ⟨x', y', hmet', hholds⟩ | hsearched
  · rw [hmet', Option.some.injEq, Prod.mk.injEq] at hmet
    obtain ⟨rfl, rfl⟩ := hmet
    exact hholds
  · rw [hsearched.met] at hmet
    exact absurd hmet (by simp)

end

end Diff

end EntitySplit
