import EntitySplit.Diff.Snake

namespace EntitySplit

namespace Diff

/-- The diagonals that are looked at in a turn: those no further from the
    middle than the turn's number, every other one, so that their neighbours
    belong to the turn before. -/
def OnTurn (turn : Nat) (k : Int) : Prop :=
  -turn ≤ k ∧ k ≤ turn ∧ (turn - k) % 2 = 0

/-- The list that a turn runs through holds the diagonals of that turn and no
    others. The proofs about turns use the condition in place of the list from
    here on. -/
theorem mem_diagonals_iff {turn : Nat} {k : Int} : k ∈ diagonals turn ↔ OnTurn turn k := by
  rw [diagonals, List.mem_map]
  constructor
  · rintro ⟨i, hi, rfl⟩
    rw [List.mem_range] at hi
    unfold OnTurn
    omega
  · rintro ⟨hlow, hhigh, hparity⟩
    refine ⟨((turn - k) / 2).toNat, ?_, ?_⟩
    · rw [List.mem_range]
      omega
    · omega

namespace Frontier

section

variable {lines : Nat} {frontier : Frontier} {k k' : Int}

/-- There is room for all diagonals that a search of that many lines can look
    at. The array then holds an entry of its own for each diagonal within reach
    of the centre, so that reading and writing never wrap or fall outside. -/
structure HasRoom (lines : Nat) (frontier : Frontier) : Prop where
  size : frontier.reached.size = lines + 5
  centre : frontier.centre = lines / 2 + 2

theorem hasRoom_ofSize (lines : Nat) : (ofSize lines).HasRoom lines :=
  ⟨by simp [ofSize], rfl⟩

theorem HasRoom.set (h : frontier.HasRoom lines) (k : Int) (x : Nat) :
    (frontier.set k x).HasRoom lines :=
  ⟨by simp [Frontier.set, h.size], h.centre⟩

/-- What is written for a diagonal is read back from it, as long as the
    diagonal is within the room. Outside it a write is lost, so the bound is
    needed. -/
theorem reach_set_self (h : frontier.HasRoom lines) (hk : k.natAbs ≤ lines / 2 + 2) (x : Nat) :
    (frontier.set k x).reach k = x := by
  have hin : (k + frontier.centre).toNat < frontier.reached.size := by
    rw [h.size, h.centre]
    omega
  simp [reach, set, Array.getD_eq_getD_getElem?, hin]

/-- Writing to one diagonal leaves the others alone. Both must be within the
    room, since diagonals outside it can share an index after the conversion
    from an integer. -/
theorem reach_set_of_ne (h : frontier.HasRoom lines) (hk : k.natAbs ≤ lines / 2 + 2)
    (hk' : k'.natAbs ≤ lines / 2 + 2) (hne : k' ≠ k) (x : Nat) :
    (frontier.set k x).reach k' = frontier.reach k' := by
  have hindex : (k + frontier.centre).toNat ≠ (k' + frontier.centre).toNat := by
    rw [h.centre]
    omega
  simp [reach, set, Array.getD_eq_getD_getElem?, Array.getElem?_setIfInBounds_ne hindex]

/-- The step to a diagonal reads the frontier at the two diagonals next to it
    only, so frontiers that agree there give the same step. -/
theorem step_congr {other : Frontier} (hleft : frontier.reach (k - 1) = other.reach (k - 1))
    (hright : frontier.reach (k + 1) = other.reach (k + 1)) (turn : Int) :
    frontier.step turn k = other.step turn k := by
  rw [step, step, hleft, hright]

end

section

variable {n m turn : Nat} {frontier other : Frontier} {k : Int} {x equal : Nat}

/-- How far a search may come on a diagonal in a turn, given how far it had
    come before on the diagonals next to it. The ranges have `n` and `m` lines;
    `x` is the place in the first and `x - k` that in the second. -/
structure Comes (n m turn : Nat) (frontier : Frontier) (k : Int) (x : Nat) : Prop where
  ahead : k ≤ x
  near : x + (x - k) ≤ n + m + turn
  right : -turn < k → frontier.reach (k - 1) < x
  down : k < turn → frontier.reach (k + 1) ≤ x
  /-- What has gone beyond the end of the first range came to it on the
      diagonal before. -/
  pastFirst : n < x → -turn < k ∧ n ≤ frontier.reach (k - 1)
  /-- What has gone beyond the end of the second range came to it on the
      diagonal behind. -/
  pastSecond : m < x - k → k < turn ∧ m ≤ frontier.reach (k + 1) - (k + 1)

/-- How far a search has come after a turn. On every diagonal of the turn it
    stands where the rule of `Comes` allows, and on all those up to the turn's
    number it has come at least to the place where the diagonal begins. -/
structure Reached (n m turn : Nat) (frontier : Frontier) : Prop where
  comes : ∀ k, OnTurn turn k → Comes n m turn frontier k (frontier.reach k)
  ahead : ∀ k : Int, k.natAbs ≤ turn → k ≤ frontier.reach k

/-- What may be come to on a diagonal depends on the frontier at its two
    neighbours only. A turn writes to its own diagonals alone, so the rule may
    be read off the frontier before the turn or during it. -/
theorem Comes.congr (h : Comes n m turn frontier k x)
    (hleft : frontier.reach (k - 1) = other.reach (k - 1))
    (hright : frontier.reach (k + 1) = other.reach (k + 1)) : Comes n m turn other k x := by
  obtain ⟨hahead, hnear, hright', hdown, hfirst, hsecond⟩ := h
  rw [hleft] at hright' hfirst
  rw [hright] at hdown hsecond
  exact ⟨hahead, hnear, hright', hdown, hfirst, hsecond⟩

/-- In the first turn the rule holds if the search stands at its start.
    `hequal` says that the equal lines which the search runs through lie within
    both ranges; it may also take none. -/
theorem comes_zero (hstart : frontier.reach 1 = 0) (hk : OnTurn 0 k)
    (hequal : equal = 0 ∨ frontier.step 0 k + equal ≤ n ∧ frontier.step 0 k - k + equal ≤ m) :
    Comes n m 0 frontier k (frontier.step 0 k + equal) := by
  obtain rfl : k = 0 := by
    obtain ⟨hlow, hhigh, -⟩ := hk
    omega
  have hstep : frontier.step 0 0 = 0 := by
    rw [step, if_pos (Or.inl (by decide))]
    exact hstart
  rw [hstep] at hequal ⊢
  constructor
  · omega
  · omega
  · omega
  · omega
  · omega
  · omega

/-- The step to a diagonal comes from the diagonal above or from the one below,
    whichever has come further, or from the only one of them that belongs to
    the turn before. What is said of the other neighbour is what `Comes` later
    needs of it. -/
theorem step_cases (frontier : Frontier) (hk : OnTurn (turn + 1) k) :
    (k < (turn + 1 : Nat) ∧ frontier.step (turn + 1 : Nat) k = frontier.reach (k + 1) ∧
      (-((turn + 1 : Nat) : Int) < k → frontier.reach (k - 1) < frontier.reach (k + 1))) ∨
    (-((turn + 1 : Nat) : Int) < k ∧ frontier.step (turn + 1 : Nat) k = frontier.reach (k - 1) + 1 ∧
      (k < (turn + 1 : Nat) → frontier.reach (k + 1) ≤ frontier.reach (k - 1))) := by
  obtain ⟨hlow, hhigh, -⟩ := hk
  rw [step]
  split
  · next h => exact Or.inl ⟨by omega, rfl, by omega⟩
  · next h => exact Or.inr ⟨by omega, rfl, by omega⟩

/-- The rule of a turn gives the rule of the turn after it. The two cases of
    `step_cases` are the two ways to come to a diagonal, and the equal lines
    taken from there stay within the ranges by `hequal`. -/
theorem Reached.comes_succ (h : Reached n m turn frontier) (hk : OnTurn (turn + 1) k)
    (hequal : equal = 0 ∨ frontier.step (turn + 1 : Nat) k + equal ≤ n ∧
      frontier.step (turn + 1 : Nat) k - k + equal ≤ m) :
    Comes n m (turn + 1) frontier k (frontier.step (turn + 1 : Nat) k + equal) := by
  have hcases := step_cases frontier hk
  obtain ⟨hlow, hhigh, hparity⟩ := hk
  have hleft (hk : -((turn + 1 : Nat) : Int) < k) :
    Comes n m turn frontier (k - 1) (frontier.reach (k - 1)) :=
    h.comes _ ⟨by omega, by omega, by omega⟩
  have hright (hk : k < (turn + 1 : Nat)) :
    Comes n m turn frontier (k + 1) (frontier.reach (k + 1)) :=
    h.comes _ ⟨by omega, by omega, by omega⟩
  -- On the diagonal itself the search was two turns ago.
  have hleft' (hk : -((turn + 1 : Nat) : Int) < k) (hk' : k < (turn + 1 : Nat)) :
      frontier.reach k ≤ frontier.reach (k - 1) := by
    simpa using (hleft hk).down (by omega)
  have hright' (hk : -((turn + 1 : Nat) : Int) < k) (hk' : k < (turn + 1 : Nat)) :
      frontier.reach k < frontier.reach (k + 1) := by
    simpa using (hright hk').right (by omega)
  generalize frontier.step (turn + 1 : Nat) k = x at hcases hequal ⊢
  rcases hcases with ⟨hlt, rfl, hbetter⟩ | ⟨hlt, rfl, hbetter⟩
  · obtain ⟨hahead, hnear, -, -, hfirst, hsecond⟩ := hright hlt
    rw [Int.add_sub_cancel] at hfirst
    refine ⟨by omega, by omega, by omega, by omega, fun hpast => ?_, by omega⟩
    obtain ⟨hk, hend⟩ := hfirst (by omega)
    have hstay := hleft' (by omega) hlt
    exact ⟨by omega, by omega⟩
  · obtain ⟨hahead, hnear, -, -, hfirst, hsecond⟩ := hleft hlt
    rw [Int.sub_add_cancel] at hsecond
    refine ⟨by omega, by omega, by omega, by omega, by omega, fun hpast => ?_⟩
    obtain ⟨hk, hend⟩ := hsecond (by omega)
    have hstay := hright' hlt (by omega)
    exact ⟨by omega, by omega⟩

/-- Where two searches have not met so far, neither goes beyond the end of a
    range on a diagonal that the other has been on: having come to that end
    before, it would have met the other there. `hapart` is that they have not
    met, `width` tells on which diagonals they look for each other, and
    `hparity` that this turn may find them together. -/
theorem Comes.le_of_apart {w : Frontier} (hx : Comes n m (turn + 1) frontier k x)
    (hk : OnTurn (turn + 1) k) (hw : ∀ k : Int, k.natAbs ≤ turn → k ≤ w.reach k) (width : Int)
    (hwidth : turn - 1 ≤ width) (hwidth' : width ≤ turn)
    (hparity : (k - (n - m) - (width + 1)) % 2 = 0) (hin : (k - (n - m)).natAbs ≤ width + 1)
    (hapart : ∀ k, OnTurn turn k → (k - (n - m)).natAbs ≤ width →
      frontier.reach k + w.reach (-(k - (n - m))) < n) : x ≤ n ∧ x - k ≤ m := by
  obtain ⟨hlow, hhigh, hparity'⟩ := hk
  constructor
  · refine Nat.le_of_not_lt fun hpast => ?_
    obtain ⟨hk, hend⟩ := hx.pastFirst hpast
    by_cases hin' : (k - 1 - (n - m)).natAbs ≤ width
    · have hnot := hapart (k - 1) ⟨by omega, by omega, by omega⟩ hin'
      omega
    · have hnear := hx.near
      omega
  · refine Int.not_lt.1 fun hpast => ?_
    obtain ⟨hk, hend⟩ := hx.pastSecond hpast
    by_cases hin' : (k + 1 - (n - m)).natAbs ≤ width
    · have hnot := hapart (k + 1) ⟨by omega, by omega, by omega⟩ hin'
      have hother := hw (-(k + 1 - (n - m))) (by omega)
      omega
    · have hnear := hx.near
      omega

end

end Frontier

end Diff

end EntitySplit
