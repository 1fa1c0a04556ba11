import EntitySplit.Diff.Preview
import EntitySplit.Proofs.Diff.Hunk

namespace EntitySplit

namespace Diff

/-- What happens to one line, which is what there is to show of it. A
    replacement becomes one row if it only changes the white space of a line,
    and rows that delete and insert otherwise. -/
inductive Row where
  /-- An old line stays as the new one. -/
  | kept (i j : Nat)
  /-- An old line gives way to a new one that differs in white space only. -/
  | respaced (i j : Nat)
  | deleted (i : Nat)
  | inserted (j : Nat)
  deriving DecidableEq, Repr

namespace Row

def isKept : Row → Bool
  | kept _ _ => true
  | _ => false

/-- What a row does from one place to another. A line that differs in white
    space only moves on in both lists, as a line that is kept does. -/
def Step (old new : Array Text) (start : Place) (row : Row) (stop : Place) : Prop :=
  match row with
  | kept i j =>
    i = start.old ∧ j = start.new ∧ old.getD i [] = new.getD j [] ∧ stop = start.moveOn 1
  | respaced i j => i = start.old ∧ j = start.new ∧
      Text.withoutBlanks (old.getD i []) = Text.withoutBlanks (new.getD j []) ∧
        stop = start.moveOn 1
  | deleted i => i = start.old ∧ stop = ⟨start.old + 1, start.new⟩
  | inserted j => j = start.new ∧ stop = ⟨start.old, start.new + 1⟩

/-- Where the old line of a row stands, if it has one. -/
def old? : Row → Option Nat
  | kept i _ | respaced i _ | deleted i => some i
  | inserted _ => none

/-- Where the new line of a row stands, if it has one. -/
def new? : Row → Option Nat
  | kept _ j | respaced _ j | inserted j => some j
  | deleted _ => none

end Row

/-- The rows of equal lines, in both lists from the given places on. -/
def keptRows (i j : Nat) : (count : Nat) → List Row
  | 0 => []
  | count + 1 => .kept i j :: keptRows (i + 1) (j + 1) count

def deletedRows (i count : Nat) : List Row :=
  (List.range' i count).map .deleted

def insertedRows (j count : Nat) : List Row :=
  (List.range' j count).map .inserted

def Change.rows (old new : Array Text) : Change → List Row
  | .equal i j count => keptRows i j count
  | .delete i count => deletedRows i count
  | .insert j count => insertedRows j count
  | .replace i oldCount j newCount =>
    if onlyBlanksDiffer old new i oldCount j newCount then [.respaced i j]
    else deletedRows i oldCount ++ insertedRows j newCount

/-- The rows that hunks show, in order and without the dots between hunks. -/
def hunkRows (old new : Array Text) (hunks : List (List Change)) : List Row :=
  hunks.flatMap fun hunk => hunk.flatMap (Change.rows old new)

section

variable {old new : Array Text} {start stop : Place} {count : Nat}

/-- The rows of equal lines lead through them. That the lines are equal is
    needed, as each row says so of its own line. -/
theorem leads_keptRows {i j : Nat} (h : Same old new i j count) :
    Leads (Row.Step old new) ⟨i, j⟩ (keptRows i j count) ⟨i + count, j + count⟩ := by
  induction count generalizing i j with
  | zero => exact .done _
  | succ count ih =>
    have hline : old.getD i [] = new.getD j [] := by
      rw [Array.getD_eq_getD_getElem?, Array.getD_eq_getD_getElem?]
      exact congrArg (·.getD []) (h 0 (Nat.zero_lt_succ count))
    have hrest := ih (h.part 1 rfl rfl (by omega))
    rw [Nat.add_right_comm i, Nat.add_right_comm j] at hrest
    exact .step ⟨rfl, rfl, hline, rfl⟩ hrest

theorem leads_deletedRows (old new : Array Text) (i j count : Nat) :
    Leads (Row.Step old new) ⟨i, j⟩ (deletedRows i count) ⟨i + count, j⟩ := by
  induction count generalizing i with
  | zero => exact .done _
  | succ count ih =>
    have hrest := ih (i + 1)
    rw [Nat.add_right_comm] at hrest
    exact .step ⟨rfl, rfl⟩ hrest

theorem leads_insertedRows (old new : Array Text) (i j count : Nat) :
    Leads (Row.Step old new) ⟨i, j⟩ (insertedRows j count) ⟨i, j + count⟩ := by
  induction count generalizing j with
  | zero => exact .done _
  | succ count ih =>
    have hrest := ih (j + 1)
    rw [Nat.add_right_comm] at hrest
    exact .step ⟨rfl, rfl⟩ hrest

/-- A replacement is shown as one line exactly if it is of one line by one line
    and these agree without their white space. -/
theorem onlyBlanksDiffer_iff {i oldCount j newCount : Nat} :
    onlyBlanksDiffer old new i oldCount j newCount = true ↔ oldCount = 1 ∧ newCount = 1 ∧
      Text.withoutBlanks (old.getD i []) = Text.withoutBlanks (new.getD j []) := by
  simp only [onlyBlanksDiffer, Bool.and_eq_true, decide_eq_true_eq, and_assoc]

/-- The rows of a change lead where the change does, for each of its kinds. For
    a replacement shown as one line the test of `onlyBlanksDiffer` is what the
    row's step asks for. -/
theorem leads_rows {change : Change} (h : change.Step old new start stop) :
    Leads (Row.Step old new) start (change.rows old new) stop := by
  cases change with
  | equal i j count =>
    obtain ⟨rfl, rfl, hsame, hold, hnew⟩ := h
    obtain rfl : stop = start.moveOn count := Place.ext hold hnew
    exact leads_keptRows hsame
  | delete i count =>
    obtain ⟨rfl, hold, hnew⟩ := h
    obtain rfl : stop = ⟨start.old + count, start.new⟩ := Place.ext hold hnew
    exact leads_deletedRows old new _ _ count
  | insert j count =>
    obtain ⟨rfl, hold, hnew⟩ := h
    obtain rfl : stop = ⟨start.old, start.new + count⟩ := Place.ext hold hnew
    exact leads_insertedRows old new _ _ count
  | replace i oldCount j newCount =>
    obtain ⟨rfl, rfl, hold, hnew⟩ := h
    obtain rfl : stop = ⟨start.old + oldCount, start.new + newCount⟩ := Place.ext hold hnew
    rw [Change.rows]
    split
    · next hblanks =>
      obtain ⟨rfl, rfl, hline⟩ := onlyBlanksDiffer_iff.1 hblanks
      exact leads_singleton_iff.2 ⟨rfl, rfl, hline, rfl⟩
    · exact (leads_deletedRows old new _ _ oldCount).append
        (leads_insertedRows old new _ _ newCount)

/-- The rows of changes that follow each other lead where the changes do. -/
theorem leads_flatMap_rows {changes : List Change}
    (h : Leads (Change.Step old new) start changes stop) :
    Leads (Row.Step old new) start (changes.flatMap (Change.rows old new)) stop := by
  induction h with
  | done place => exact .done place
  | step hstep _ ih => exact (leads_rows hstep).append ih

/-- A row takes no old line or the one where the way has come to, and the way
    moves on accordingly. -/
theorem step_old {row : Row} (h : row.Step old new start stop) :
    row.old? = none ∧ stop.old = start.old ∨ row.old? = some start.old ∧
      stop.old = start.old + 1 := by
  cases row with
  | kept i j =>
    obtain ⟨rfl, -, -, rfl⟩ := h
    exact .inr ⟨rfl, rfl⟩
  | respaced i j =>
    obtain ⟨rfl, -, -, rfl⟩ := h
    exact .inr ⟨rfl, rfl⟩
  | deleted i =>
    obtain ⟨rfl, rfl⟩ := h
    exact .inr ⟨rfl, rfl⟩
  | inserted j =>
    obtain ⟨-, rfl⟩ := h
    exact .inl ⟨rfl, rfl⟩

theorem step_new {row : Row} (h : row.Step old new start stop) :
    row.new? = none ∧ stop.new = start.new ∨ row.new? = some start.new ∧
      stop.new = start.new + 1 := by
  cases row with
  | kept i j =>
    obtain ⟨-, rfl, -, rfl⟩ := h
    exact .inr ⟨rfl, rfl⟩
  | respaced i j =>
    obtain ⟨-, rfl, -, rfl⟩ := h
    exact .inr ⟨rfl, rfl⟩
  | deleted i =>
    obtain ⟨-, rfl⟩ := h
    exact .inl ⟨rfl, rfl⟩
  | inserted j =>
    obtain ⟨rfl, rfl⟩ := h
    exact .inr ⟨rfl, rfl⟩

/-- Rows on a way have each old line between its ends once, in order. With the
    ends at the beginning and the end of both lists, each line of the old text
    has exactly one row. -/
theorem exists_oldLines {rows : List Row} (h : Leads (Row.Step old new) start rows stop) :
    ∃ count, stop.old = start.old + count ∧ rows.filterMap Row.old? = List.range' start.old count :=
  h.exists_range' step_old

/-- Rows on a way have each new line between its ends once, in order. -/
theorem exists_newLines {rows : List Row} (h : Leads (Row.Step old new) start rows stop) :
    ∃ count, stop.new = start.new + count ∧ rows.filterMap Row.new? = List.range' start.new count :=
  h.exists_range' step_new

/-- The rows shown are all but some of those kept: they stand in the same
    order, and every row that tells of a change is among them. -/
structure Shows (rows shown : List Row) : Prop where
  sublist : shown.Sublist rows
  changed : shown.filter (! ·.isKept) = rows.filter (! ·.isKept)

theorem shows_refl (rows : List Row) : Shows rows rows :=
  ⟨List.Sublist.refl rows, rfl⟩

theorem Shows.append {rows shown rows' shown' : List Row} (h : Shows rows shown)
    (h' : Shows rows' shown') :
    Shows (rows ++ rows') (shown ++ shown') where
  sublist := h.sublist.append h'.sublist
  changed := by rw [List.filter_append, List.filter_append, h.changed, h'.changed]

theorem shows_keptRows (i j count : Nat) : Shows (keptRows i j count) [] := by
  refine ⟨List.nil_sublist _, ?_⟩
  induction count generalizing i j with
  | zero => rfl
  | succ count ih => exact ih (i + 1) (j + 1)

/-- What a row tells of a change is told by the rows shown. `hkept` says that
    `f` tells nothing of lines kept, so that leaving some of them out does not
    matter to it. -/
theorem Shows.filterMap_eq {α : Type} {f : Row → Option α} {rows shown : List Row}
    (h : Shows rows shown)
    (hkept : ∀ i j, f (.kept i j) = none) : shown.filterMap f = rows.filterMap f := by
  have hf : f = fun row => if (! row.isKept) = true then f row else none := by
    funext row
    cases row with
    | kept i j => exact hkept i j
    | respaced i j => rfl
    | deleted i => rfl
    | inserted j => rfl
  rw [hf, ← List.filterMap_filter, h.changed, List.filterMap_filter]

/-- Equal lines have rows, none of which need be shown. -/
theorem LinesEqual.exists_rows (h : LinesEqual old new start stop) :
    ∃ rows, Leads (Row.Step old new) start rows stop ∧ Shows rows [] := by
  obtain ⟨count, hsame, rfl⟩ := h
  exact ⟨keptRows start.old start.new count, leads_keptRows hsame, shows_keptRows _ _ count⟩

/-- A hunk behind equal lines shows the rows of a way through both; those of
    the equal lines are left out. -/
theorem HunkStep.exists_rows {hunk : List Change} (h : HunkStep old new start hunk stop) :
    ∃ rows, Leads (Row.Step old new) start rows stop ∧
      Shows rows (hunk.flatMap (Change.rows old new)) := by
  obtain ⟨place, hequal, hleads⟩ := h
  obtain ⟨rows, hrows, hshows⟩ := hequal.exists_rows
  exact ⟨_, hrows.append (leads_flatMap_rows hleads), hshows.append (shows_refl _)⟩

/-- Hunks show the rows of a way through all lines, but for some of those kept.
    From here on a preview is spoken of by its rows, and the hunks no longer
    matter. -/
theorem HunksLead.exists_rows {hunks : List (List Change)}
    (h : HunksLead old new start hunks stop) :
    ∃ rows, Leads (Row.Step old new) start rows stop ∧ Shows rows (hunkRows old new hunks) := by
  obtain ⟨place, hleads, hbehind⟩ := h
  induction hleads with
  | done place => exact hbehind.exists_rows
  | step hhunk _ ih =>
    obtain ⟨rows, hrows, hshows⟩ := hhunk.exists_rows
    obtain ⟨rows', hrows', hshows'⟩ := ih hbehind
    exact ⟨rows ++ rows', hrows.append hrows', hshows.append hshows'⟩

end

end Diff

end EntitySplit
