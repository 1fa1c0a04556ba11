import EntitySplit.Diff.Hunk
import EntitySplit.Proofs.Diff.Compaction

namespace EntitySplit

namespace Diff

section

variable {old new : Array Text} {start middle stop : Place}

/-- What a change does from one place to another. As with runs, a deletion
    names its place in the old list only and an insertion its place in the new
    one; a replacement names both. -/
def Change.Step (old new : Array Text) (start : Place) (change : Change) (stop : Place) : Prop :=
  match change with
  | .equal i j count => i = start.old ∧ j = start.new ∧ Same old new i j count ∧
      stop.old = start.old + count ∧ stop.new = start.new + count
  | .delete i count => i = start.old ∧ stop.old = start.old + count ∧ stop.new = start.new
  | .insert j count => j = start.new ∧ stop.old = start.old ∧ stop.new = start.new + count
  | .replace i oldCount j newCount => i = start.old ∧ j = start.new ∧
      stop.old = start.old + oldCount ∧ stop.new = start.new + newCount

/-- Pending lines lead as many lines further as they are, if they begin where
    the way has come to. All four combinations of deleted and inserted lines
    are covered, none pending being a way that stays where it is. -/
theorem leads_pending_iff {pending : Pending} :
    Leads (Change.Step old new) start pending.change stop ↔
    (∀ lines ∈ pending.deleted, lines.1 = start.old) ∧
      (∀ lines ∈ pending.inserted, lines.1 = start.new) ∧
      stop.old = start.old + pending.deleted.elim 0 Prod.snd ∧
      stop.new = start.new + pending.inserted.elim 0 Prod.snd := by
  obtain ⟨deleted, inserted⟩ := pending
  cases deleted with
  | none =>
    cases inserted with
    | none => simp [Pending.change, leads_nil_iff, Place.ext_iff, eq_comm]
    | some lines => simp [Pending.change, leads_singleton_iff, Change.Step]
  | some lines =>
    cases inserted with
    | none => simp [Pending.change, leads_singleton_iff, Change.Step]
    | some lines' => simp [Pending.change, leads_singleton_iff, Change.Step]

/-- A run of deleted lines may be added to the pending ones. It need not follow
    other deleted lines directly: inserted lines between them do not move the
    place in the old list. -/
theorem leads_addDeleted {pending : Pending} {run : Run} (hkind : run.kind = .delete)
    (hpending : Leads (Change.Step old new) start pending.change middle)
    (hrun : run.Step old new middle stop) :
    Leads (Change.Step old new) start (pending.addDeleted run).change stop := by
  obtain ⟨hold, hstop, hstop'⟩ := (Run.step_delete_iff hkind).1 hrun
  obtain ⟨deleted, inserted⟩ := pending
  obtain ⟨hdeleted, hinserted, hmiddle, hmiddle'⟩ := leads_pending_iff.1 hpending
  refine leads_pending_iff.2 ?_
  cases deleted with
  | none =>
    refine ⟨?_, hinserted, hstop.trans (congrArg (· + run.length) hmiddle), hstop'.trans hmiddle'⟩
    rintro _ ⟨rfl⟩
    exact hold.trans hmiddle
  | some lines =>
    refine ⟨?_, hinserted, ?_, hstop'.trans hmiddle'⟩
    · rintro _ ⟨rfl⟩
      exact hdeleted lines rfl
    · rw [hstop, hmiddle, Nat.add_assoc]
      rfl

/-- A run of inserted lines may be added to the pending ones, whatever deleted
    lines stand between them. -/
theorem leads_addInserted {pending : Pending} {run : Run} (hkind : run.kind = .insert)
    (hpending : Leads (Change.Step old new) start pending.change middle)
    (hrun : run.Step old new middle stop) :
    Leads (Change.Step old new) start (pending.addInserted run).change stop := by
  obtain ⟨hnew, hstop, hstop'⟩ := (Run.step_insert_iff hkind).1 hrun
  obtain ⟨deleted, inserted⟩ := pending
  obtain ⟨hdeleted, hinserted, hmiddle, hmiddle'⟩ := leads_pending_iff.1 hpending
  refine leads_pending_iff.2 ?_
  cases inserted with
  | none =>
    refine ⟨hdeleted, ?_, hstop.trans hmiddle, hstop'.trans (congrArg (· + run.length) hmiddle')⟩
    rintro _ ⟨rfl⟩
    exact hnew.trans hmiddle'
  | some lines =>
    refine ⟨hdeleted, ?_, hstop.trans hmiddle, ?_⟩
    · rintro _ ⟨rfl⟩
      exact hinserted lines rfl
    · rw [hstop', hmiddle', Nat.add_assoc]
      rfl

/-- Equal lines in front of changes lead to where the changes begin, also when
    the first change is one of equal lines and the two become one. -/
theorem leads_consEqual {run : Run} {changes : List Change} (hkind : run.kind = .equal)
    (hrun : run.Step old new start middle) (h : Leads (Change.Step old new) middle changes stop) :
    Leads (Change.Step old new) start (consEqual run changes) stop := by
  rw [Run.step_equal_iff hkind] at hrun
  obtain ⟨hold, hnew, hsame, hmiddle, hmiddle'⟩ := hrun
  unfold consEqual
  split
  · next i j count rest =>
    obtain ⟨place, ⟨rfl, rfl, hsame', hplace, hplace'⟩, hrest⟩ := leads_cons_iff.1 h
    refine leads_cons_iff.2
      ⟨place, ⟨hold, hnew, same_add_iff.2 ⟨hsame, ?_⟩, by omega, by omega⟩, hrest⟩
    rwa [hold, hnew, ← hmiddle, ← hmiddle']
  · exact .step ⟨hold, hnew, hsame, hmiddle, hmiddle'⟩ h

/-- The changes made from pending lines and the runs behind them lead where
    both do. The induction is on the runs, with the place that the pending
    lines have come to as the middle. -/
theorem leads_changesFrom {pending : Pending} {runs : List Run}
    (hpending : Leads (Change.Step old new) start pending.change middle)
    (h : Along old new middle runs stop) :
    Leads (Change.Step old new) start (changesFrom pending runs) stop := by
  induction runs generalizing start middle pending with
  | nil =>
    obtain rfl := leads_nil_iff.1 h
    exact hpending
  | cons run rest ih =>
    obtain ⟨place, hrun, hrest⟩ := leads_cons_iff.1 h
    rw [changesFrom]
    split
    · next hkind => exact hpending.append (leads_consEqual hkind hrun (ih (.done place) hrest))
    · next hkind => exact ih (leads_addDeleted hkind hpending hrun) hrest
    · next hkind => exact ih (leads_addInserted hkind hpending hrun) hrest

/-- The changes of a script lead where its runs do, so a script from the
    beginning of two lists to their end gives changes that tell of all their
    lines. -/
theorem leads_changes {runs : List Run} (h : Along old new start runs stop) :
    Leads (Change.Step old new) start (changes runs) stop :=
  leads_changesFrom (.done start) h

/-- The place `count` lines further on in both lists. -/
def Place.moveOn (place : Place) (count : Nat) : Place :=
  ⟨place.old + count, place.new + count⟩

/-- Equal lines lead from one place to another: the places are the same number
    of lines apart in both lists, and the lines between them agree. -/
def LinesEqual (old new : Array Text) (start stop : Place) : Prop :=
  ∃ count, Same old new start.old start.new count ∧ stop = start.moveOn count

/-- No lines are equal lines, which is how hunks that touch each other are said
    to leave out nothing. -/
theorem linesEqual_refl (old new : Array Text) (place : Place) : LinesEqual old new place place :=
  ⟨0, same_zero old new _ _, rfl⟩

/-- Equal lines behind equal lines are equal lines, as where the end of one
    hunk is trimmed and the next begins further on. -/
theorem LinesEqual.trans (h : LinesEqual old new start middle)
    (h' : LinesEqual old new middle stop) :
    LinesEqual old new start stop := by
  obtain ⟨count, hsame, rfl⟩ := h
  obtain ⟨more, hsame', rfl⟩ := h'
  refine ⟨count + more, same_add_iff.2 ⟨hsame, hsame'⟩, ?_⟩
  simp only [Place.moveOn, Nat.add_assoc]

/-- A hunk may be behind equal lines that are left out. These come before it,
    so that whatever the last hunk leaves out is said once, in `HunksLead`. -/
def HunkStep (old new : Array Text) (start : Place) (hunk : List Change) (stop : Place) : Prop :=
  ∃ place, LinesEqual old new start place ∧ Leads (Change.Step old new) place hunk stop

/-- Hunks lead from one place to another if only equal lines are left out
    before, between and behind them. -/
def HunksLead (old new : Array Text) (start : Place) (hunks : List (List Change)) (stop : Place) :
    Prop :=
  ∃ place, Leads (HunkStep old new) start hunks place ∧ LinesEqual old new place stop

/-- A change of equal lines may be left out of a hunk. -/
theorem Change.Step.linesEqual {i j count : Nat}
    (h : (Change.equal i j count).Step old new start stop) :
    LinesEqual old new start stop := by
  obtain ⟨rfl, rfl, hsame, hold, hnew⟩ := h
  exact ⟨count, hsame, Place.ext hold hnew⟩

/-- Equal lines can be cut anywhere, into a first part that ends `first` lines
    on and a second part that begins there. Trimming a hunk and splitting
    between hunks are both such cuts. -/
theorem Change.Step.cut {i j count : Nat} (h : (Change.equal i j count).Step old new start stop)
    (first : Nat)
    (hle : first ≤ count) : (Change.equal i j first).Step old new start (start.moveOn first) ∧
      (Change.equal (i + first) (j + first) (count - first)).Step old new
        (start.moveOn first) stop := by
  obtain ⟨rfl, rfl, hsame, hold, hnew⟩ := h
  refine ⟨⟨rfl, rfl, hsame.part 0 rfl rfl (by omega), rfl, rfl⟩,
    ⟨rfl, rfl, hsame.part first rfl rfl (by omega), ?_, ?_⟩⟩
  · simp only [Place.moveOn]
    omega
  · simp only [Place.moveOn]
    omega

/-- Trimming the equal lines at the beginning leaves a hunk behind equal lines,
    for any number of lines of context. -/
theorem hunkStep_trimFirst (context : Nat) {changes : List Change}
    (h : Leads (Change.Step old new) start changes stop) :
    HunkStep old new start (trimFirst context changes) stop := by
  unfold trimFirst
  split
  · next i j count rest =>
    obtain ⟨middle, hstep, hrest⟩ := leads_cons_iff.1 h
    obtain ⟨hskipped, hkept⟩ := hstep.cut (count - context) (by omega)
    exact ⟨_, hskipped.linesEqual, .step hkept hrest⟩
  · exact ⟨start, linesEqual_refl old new start, h⟩

/-- Trimming the equal lines at the end leaves changes that lead to a place
    from which only equal lines follow. -/
theorem leads_trimLast (context : Nat) {changes : List Change}
    (h : Leads (Change.Step old new) start changes stop) :
    ∃ place, Leads (Change.Step old new) start (trimLast context changes) place ∧
      LinesEqual old new place stop := by
  fun_induction trimLast context changes generalizing start with
  | case1 => exact ⟨stop, h, linesEqual_refl old new stop⟩
  | case2 i j count =>
    obtain ⟨hkept, hskipped⟩ := (leads_singleton_iff.1 h).cut (count - (count - context)) (by omega)
    exact ⟨_, leads_singleton_iff.2 hkept, hskipped.linesEqual⟩
  | case3 change => exact ⟨stop, h, linesEqual_refl old new stop⟩
  | case4 change next rest ih =>
    obtain ⟨middle, hstep, hrest⟩ := leads_cons_iff.1 h
    obtain ⟨place, hleads, hequal⟩ := ih hrest
    exact ⟨place, .step hstep hleads, hequal⟩

/-- The last hunk may be none at all if it holds only equal lines, since these
    may be left out. -/
theorem hunksLead_lastHunk {hunk : List Change} (hhunk : HunkStep old new start hunk middle)
    (hbehind : LinesEqual old new middle stop) : HunksLead old new start (lastHunk hunk) stop := by
  unfold lastHunk
  obtain ⟨place, hbefore, hleads⟩ := hhunk
  split
  · obtain rfl := leads_nil_iff.1 hleads
    exact ⟨start, .done start, hbefore.trans hbehind⟩
  · have hequal := (leads_singleton_iff.1 hleads).linesEqual
    exact ⟨start, .done start, hbefore.trans (hequal.trans hbehind)⟩
  · exact ⟨middle, leads_singleton_iff.2 ⟨place, hbefore, hleads⟩, hbehind⟩

/-- A hunk in front of hunks that begin where it ends. -/
theorem HunksLead.cons {hunk : List Change} {hunks : List (List Change)}
    (hhunk : HunkStep old new start hunk middle)
    (h : HunksLead old new middle hunks stop) : HunksLead old new start (hunk :: hunks) stop := by
  obtain ⟨place, hleads, hbehind⟩ := h
  exact ⟨place, .step hhunk hleads, hbehind⟩

/-- A hunk may be continued by changes that begin where it ends, which is what
    `hunksFrom` does while no cut is due. -/
theorem HunkStep.append {hunk changes : List Change} (hhunk : HunkStep old new start hunk middle)
    (h : Leads (Change.Step old new) middle changes stop) :
    HunkStep old new start (hunk ++ changes) stop := by
  obtain ⟨place, hbefore, hleads⟩ := hhunk
  exact ⟨place, hbefore, hleads.append h⟩

/-- The hunks cut from changes behind a hunk begun before lead where both do.
    Each cut leaves out the equal lines in the middle only, and what follows
    the last change is equal by `hbehind`. -/
theorem hunksLead_hunksFrom (context : Nat) {place : Place} {hunk changes : List Change}
    (hhunk : HunkStep old new start hunk middle)
    (h : Leads (Change.Step old new) middle changes place)
    (hbehind : LinesEqual old new place stop) :
    HunksLead old new start (hunksFrom context hunk changes) stop := by
  fun_induction hunksFrom context hunk changes generalizing start middle with
  | case1 hunk =>
    obtain rfl := leads_nil_iff.1 h
    exact hunksLead_lastHunk hhunk hbehind
  | case2 hunk i j count rest hcount ih =>
    obtain ⟨behind, hstep, hrest⟩ := leads_cons_iff.1 h
    obtain ⟨hfirst, hlater⟩ := hstep.cut context (by omega)
    obtain ⟨hskipped, hlast⟩ := hlater.cut (count - context - context) (by omega)
    rw [show i + context + (count - context - context) = i + (count - context) by omega,
      show j + context + (count - context - context) = j + (count - context) by omega,
      show count - context - (count - context - context) = context by omega] at hlast
    refine .cons (hhunk.append (leads_singleton_iff.2 hfirst)) (ih ?_ hrest)
    exact ⟨_, hskipped.linesEqual, leads_singleton_iff.2 hlast⟩
  | case3 hunk i j count rest hcount ih =>
    obtain ⟨behind, hstep, hrest⟩ := leads_cons_iff.1 h
    exact ih (hhunk.append (leads_singleton_iff.2 hstep)) hrest
  | case4 hunk change rest hchange ih =>
    obtain ⟨behind, hstep, hrest⟩ := leads_cons_iff.1 h
    exact ih (hhunk.append (leads_singleton_iff.2 hstep)) hrest

/-- The hunks of changes lead where the changes do, for any number of lines of
    context. Nothing is asked of the changes but that they are a way, so this
    holds for every script and not only for the shortest. -/
theorem hunksLead_hunks (context : Nat) {changes : List Change}
    (h : Leads (Change.Step old new) start changes stop) :
    HunksLead old new start (hunks context changes) stop := by
  obtain ⟨place, hbefore, hleads⟩ := hunkStep_trimFirst context h
  obtain ⟨place', hleads, hbehind⟩ := leads_trimLast context hleads
  exact hunksLead_hunksFrom context ⟨place, hbefore, .done place⟩ hleads hbehind

end

end Diff

end EntitySplit
