import EntitySplit.Diff.Change

namespace EntitySplit

namespace Diff

/-- A place in the old list of lines and one in the new list, each between two
    lines or at an end. -/
@[ext] structure Place where
  old : Nat
  new : Nat
  deriving DecidableEq, Repr

/-- Steps lead from one place to another, each from where the one before it
    ends. The notion of a step is left open: runs, changes, hunks and rows all
    take steps, and the facts about ways are shared. -/
inductive Leads {α : Type} (Step : Place → α → Place → Prop) : Place → List α → Place → Prop where
  | done (place : Place) : Leads Step place [] place
  | step {start middle stop : Place} {a : α} {rest : List α} (hstep : Step start a middle)
      (hrest : Leads Step middle rest stop) : Leads Step start (a :: rest) stop

section

variable {α β : Type} {Step : Place → α → Place → Prop} {start stop : Place} {steps others : List α}

theorem leads_nil_iff : Leads Step start [] stop ↔ start = stop := by
  constructor
  · intro h
    cases h
    rfl
  · rintro rfl
    exact .done start

theorem leads_cons_iff {a : α} :
    Leads Step start (a :: steps) stop ↔ ∃ middle, Step start a middle ∧
      Leads Step middle steps stop := by
  constructor
  · intro h
    cases h with
    | step hstep hrest => exact ⟨_, hstep, hrest⟩
  · rintro ⟨middle, hstep, hrest⟩
    exact .step hstep hrest

theorem leads_append_iff :
    Leads Step start (steps ++ others) stop ↔
      ∃ middle, Leads Step start steps middle ∧ Leads Step middle others stop := by
  induction steps generalizing start with
  | nil =>
    constructor
    · intro h
      exact ⟨start, .done start, h⟩
    · rintro ⟨middle, hnil, h⟩
      rwa [leads_nil_iff.1 hnil]
  | cons a steps ih =>
    rw [List.cons_append, leads_cons_iff]
    constructor
    · rintro ⟨middle, hstep, hrest⟩
      obtain ⟨place, hsteps, hothers⟩ := ih.1 hrest
      exact ⟨place, .step hstep hsteps, hothers⟩
    · rintro ⟨place, hsteps, hothers⟩
      obtain ⟨middle, hstep, hrest⟩ := leads_cons_iff.1 hsteps
      exact ⟨middle, hstep, ih.2 ⟨place, hrest, hothers⟩⟩

theorem leads_singleton_iff {a : α} : Leads Step start [a] stop ↔ Step start a stop := by
  simp only [leads_cons_iff, leads_nil_iff, exists_eq_right]

theorem Leads.append {middle : Place} (h : Leads Step start steps middle)
    (hothers : Leads Step middle others stop) :
    Leads Step start (steps ++ others) stop :=
  leads_append_iff.2 ⟨middle, h, hothers⟩

/-- Steps behind others may be exchanged for steps between the same places. The
    place between is not known beforehand, so the exchange must be possible
    from any. -/
theorem Leads.exchange {front behind behind' : List α} (h : Leads Step start (front ++ behind) stop)
    (hbehind : ∀ middle, Leads Step middle behind stop → Leads Step middle behind' stop) :
    Leads Step start (front ++ behind') stop := by
  obtain ⟨middle, hfront, hrest⟩ := leads_append_iff.1 h
  exact hfront.append (hbehind middle hrest)

/-- What steps take one at a time they take without a gap. `side` is one of the
    two lists, and each step must take the line there or leave the place as it
    is. -/
theorem Leads.exists_range' {taken? : α → Option Nat} {side : Place → Nat}
    (hstep : ∀ {start a stop}, Step start a stop →
      taken? a = none ∧ side stop = side start ∨ taken? a = some (side start) ∧
        side stop = side start + 1)
    (h : Leads Step start steps stop) :
    ∃ count, side stop = side start + count ∧
      steps.filterMap taken? = List.range' (side start) count := by
  induction h with
  | done place => exact ⟨0, rfl, rfl⟩
  | step hfirst _ ih =>
    obtain ⟨count, hstop, htaken⟩ := ih
    rcases hstep hfirst with ⟨hnone, hmiddle⟩ | ⟨hsome, hmiddle⟩
    · rw [hmiddle] at hstop htaken
      exact ⟨count, hstop, by rw [List.filterMap_cons_none hnone, htaken]⟩
    · rw [hmiddle] at hstop htaken
      exact ⟨count + 1, by omega, by rw [List.filterMap_cons_some hsome, htaken, List.range'_succ]⟩

end

/-- The `count` lines from two places on are equal. Past the end of the lists
    there is no line on either side, which counts as equal too. -/
def Same (old new : Array Text) (i j count : Nat) : Prop :=
  ∀ k < count, old[i + k]? = new[j + k]?

instance (old new : Array Text) (i j count : Nat) : Decidable (Same old new i j count) :=
  inferInstanceAs (Decidable (∀ k < count, old[i + k]? = new[j + k]?))

section

variable {old new : Array Text} {i j count more oldStart oldStop newStart newStop : Nat}

theorem same_zero (old new : Array Text) (i j : Nat) : Same old new i j 0 :=
  fun k hk => absurd hk (Nat.not_lt_zero k)

/-- Lines are equal from two places on if they are up to a point and from there
    on. -/
theorem same_add_iff :
    Same old new i j (count + more) ↔ Same old new i j count ∧
      Same old new (i + count) (j + count) more := by
  constructor
  · intro h
    refine ⟨fun k hk => h k (by omega), fun k hk => ?_⟩
    rw [Nat.add_assoc, Nat.add_assoc]
    exact h (count + k) (by omega)
  · rintro ⟨hfirst, hrest⟩ k hk
    by_cases hlt : k < count
    · exact hfirst k hlt
    · have hk' := hrest (k - count) (by omega)
      rwa [show i + count + (k - count) = i + k by omega,
        show j + count + (k - count) = j + k by omega] at hk'

/-- Lines within equal lines are equal, with the same number of lines skipped
    on both sides. -/
theorem Same.part (h : Same old new i j count) {i' j' count' : Nat} (skipped : Nat)
    (hi : i' = i + skipped)
    (hj : j' = j + skipped) (hcount : skipped + count' ≤ count) : Same old new i' j' count' := by
  intro k hk
  rw [hi, hj, Nat.add_assoc, Nat.add_assoc]
  exact h (skipped + k) (by omega)

theorem same_commonStart (old new : Array Text) (i oldStop j newStop : Nat) :
    Same old new i j (commonStart old new i oldStop j newStop) := by
  fun_induction commonStart old new i oldStop j newStop with
  | case1 i j hin heq ih =>
    rw [Nat.add_comm, same_add_iff]
    refine ⟨fun k hk => ?_, ih⟩
    obtain rfl : k = 0 := by omega
    exact heq
  | case2 => exact same_zero old new _ _
  | case3 => exact same_zero old new _ _

/-- The lines counted from two places on stay before both stops, so a run never
    slides over more lines than there are. -/
theorem commonStart_le (old new : Array Text) (i oldStop j newStop : Nat) :
    commonStart old new i oldStop j newStop ≤ oldStop - i ∧
      commonStart old new i oldStop j newStop ≤ newStop - j := by
  fun_induction commonStart old new i oldStop j newStop with
  | case1 => omega
  | case2 => omega
  | case3 => omega

/-- The lines counted back from two places stay behind both starts. -/
theorem commonEnd_le (old new : Array Text) (oldStart i newStart j : Nat) :
    commonEnd old new oldStart i newStart j ≤ i - oldStart ∧
      commonEnd old new oldStart i newStart j ≤ j - newStart := by
  fun_induction commonEnd old new oldStart i newStart j with
  | case1 => omega
  | case2 => omega
  | case3 => omega

theorem same_commonEnd (old new : Array Text) (oldStart i newStart j : Nat) :
    Same old new (i - commonEnd old new oldStart i newStart j)
      (j - commonEnd old new oldStart i newStart j)
      (commonEnd old new oldStart i newStart j) := by
  fun_induction commonEnd old new oldStart i newStart j with
  | case1 i j hin heq ih =>
    have hle := commonEnd_le old new oldStart (i - 1) newStart (j - 1)
    generalize commonEnd old new oldStart (i - 1) newStart (j - 1) = count at ih hle ⊢
    rw [same_add_iff]
    refine ⟨ih.part 0 (by omega) (by omega) (by omega), fun k hk => ?_⟩
    rwa [show i - (count + 1) + count + k = i - 1 by omega,
      show j - (count + 1) + count + k = j - 1 by omega]
  | case2 => exact same_zero old new _ _
  | case3 => exact same_zero old new _ _

end

section

variable {old new : Array Text} {start stop : Place} {run : Run}

/-- What a run does from one place to another. The old place of inserted lines
    and the new place of deleted ones play no part: they are not kept up to
    date when runs change places. -/
def Run.Step (old new : Array Text) (start : Place) (run : Run) (stop : Place) : Prop :=
  match run.kind with
  | .equal => run.old = start.old ∧ run.new = start.new ∧ Same old new run.old run.new run.length ∧
      stop.old = start.old + run.length ∧ stop.new = start.new + run.length
  | .delete => run.old = start.old ∧ stop.old = start.old + run.length ∧ stop.new = start.new
  | .insert => run.new = start.new ∧ stop.old = start.old ∧ stop.new = start.new + run.length

theorem Run.step_equal_iff (hkind : run.kind = .equal) : run.Step old new start stop ↔
    run.old = start.old ∧ run.new = start.new ∧ Same old new run.old run.new run.length ∧
      stop.old = start.old + run.length ∧ stop.new = start.new + run.length := by
  rw [Run.Step, hkind]

theorem Run.step_delete_iff (hkind : run.kind = .delete) : run.Step old new start stop ↔
    run.old = start.old ∧ stop.old = start.old + run.length ∧ stop.new = start.new := by
  rw [Run.Step, hkind]

theorem Run.step_insert_iff (hkind : run.kind = .insert) : run.Step old new start stop ↔
    run.new = start.new ∧ stop.old = start.old ∧ stop.new = start.new + run.length := by
  rw [Run.Step, hkind]

/-- The runs lead from one place to another, each doing what its kind says. -/
abbrev Along (old new : Array Text) (start : Place) (runs : List Run) (stop : Place) : Prop :=
  Leads (Run.Step old new) start runs stop

end

end Diff

end EntitySplit
