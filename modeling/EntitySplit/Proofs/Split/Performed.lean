import EntitySplit.Proofs.Files.Change
import EntitySplit.Split.Action

namespace EntitySplit

namespace Split

open Files (Place Entry Data Extends Written)

/-- The path at which an action puts something; making directories takes
    nothing's place, so it is aimed at none. -/
def Action.aim? : Action → Option Path
  | .makeDirs _ => none
  | .copy _ target => some target
  | .write path _ => some path

/-- The paths at which an action may change something. A directory may be made
    together with all those above it. -/
def Action.touched : Action → List Path
  | .makeDirs folder => folder.ancestors
  | .copy _ target => [target]
  | .write path _ => [path]

/-- The data that an action puts where it is aimed. A copy takes them from the
    files as they are when it is performed. -/
def Action.Puts (files : Files) (data : Data) : Action → Prop
  | .makeDirs _ => False
  | .copy source _ => files.probe source = .file data
  | .write _ text => data = .text text

/-- That the actions are aimed at absolute paths, so that where they are aimed
    does not hang on the working directory. -/
def AimAbsolutely (actions : List Action) : Prop :=
  ∀ action ∈ actions, ∀ path ∈ action.aim?, path.isAbsolute = true

/-- That no action is aimed at a place. Directories may still be made on the
    way to it, but not in the stead of what is there. -/
def Spare (actions : List Action) (place : Place) : Prop :=
  ∀ action ∈ actions, ∀ path ∈ action.aim?, path.place ≠ place

section

variable {files after : Files} {action : Action} {actions first second : List Action}
  {place : Place} {entry : Entry}
  {path : Path} {text : Text} {failure : Failure} {result : Except Failure Unit}

theorem aimAbsolutely_cons :
    AimAbsolutely (action :: actions) ↔ (∀ path ∈ action.aim?, path.isAbsolute = true) ∧
      AimAbsolutely actions :=
  List.forall_mem_cons

theorem aimAbsolutely_append :
    AimAbsolutely (first ++ second) ↔ AimAbsolutely first ∧ AimAbsolutely second :=
  List.forall_mem_append

theorem spare_cons :
    Spare (action :: actions) place ↔ (∀ path ∈ action.aim?, path.place ≠ place) ∧
      Spare actions place :=
  List.forall_mem_cons

theorem spare_append : Spare (first ++ second) place ↔ Spare first place ∧ Spare second place :=
  List.forall_mem_append

/-- An action makes directories, writes a file where it is aimed, or fails and
    changes nothing. Copying and writing come together in the second case, and
    only they need an absolute path. -/
theorem perform_cases {done : Except Files.Cause Unit}
    (haim : ∀ path ∈ action.aim?, path.isAbsolute = true)
    (h : action.perform files = (after, done)) :
    (∃ folder, action = .makeDirs folder ∧ after = (files.makeDirs folder).1) ∨
      (∃ path data, path ∈ action.aim? ∧ action.Puts files data ∧ Written files after path data ∧
        done = .ok ()) ∨
      (after = files ∧ ∃ cause, done = .error cause) := by
  cases action with
  | makeDirs folder => exact .inl ⟨folder, rfl, (congrArg Prod.fst h).symm⟩
  | copy source target =>
    rw [Action.perform] at h
    cases hcopy : files.copy source target with
    | error cause =>
      rw [hcopy, Action.keep, Prod.mk.injEq] at h
      exact .inr (.inr ⟨h.1.symm, cause, h.2.symm⟩)
    | ok made =>
      rw [hcopy, Action.keep, Prod.mk.injEq] at h
      obtain ⟨rfl, rfl⟩ := h
      obtain ⟨data, hsource, hwritten⟩ := Files.written_of_copy (haim target rfl) hcopy
      exact .inr (.inl ⟨target, data, rfl, hsource, hwritten, rfl⟩)
  | write target text =>
    rw [Action.perform] at h
    cases hwrite : files.writeData target (.text text) with
    | error cause =>
      rw [hwrite, Action.keep, Prod.mk.injEq] at h
      exact .inr (.inr ⟨h.1.symm, cause, h.2.symm⟩)
    | ok made =>
      rw [hwrite, Action.keep, Prod.mk.injEq] at h
      obtain ⟨rfl, rfl⟩ := h
      have hwritten := Files.written_of_writeData (haim target rfl) hwrite
      exact .inr (.inl ⟨target, .text text, rfl, rfl, hwritten, rfl⟩)

/-- An action takes nothing away: each place that had a file or a directory has
    one of the same kind afterwards, also when the action fails. -/
theorem extends_perform {done : Except Files.Cause Unit}
    (haim : ∀ path ∈ action.aim?, path.isAbsolute = true)
    (h : action.perform files = (after, done)) : Extends files after := by
  rcases perform_cases haim h with ⟨folder, -, rfl⟩ | ⟨path, data, -, -, hwritten, -⟩ | ⟨rfl, -⟩
  · exact Files.extends_makeDirs files folder
  · exact hwritten.grown
  · exact .refl _

/-- What is at a place stays there if an action is not aimed at it. That
    something is there is needed, for a directory may be made where nothing is. -/
theorem lookup_perform {done : Except Files.Cause Unit}
    (haim : ∀ path ∈ action.aim?, path.isAbsolute = true)
    (hspare : ∀ path ∈ action.aim?, path.place ≠ place) (hentry : files.lookup place = some entry)
    (h : action.perform files = (after, done)) : after.lookup place = some entry := by
  rcases perform_cases haim h with ⟨folder, -, rfl⟩ | ⟨path, data, hpath, -, hwritten, -⟩ | ⟨rfl, -⟩
  · exact Files.lookup_makeDirs hentry
  · rw [hwritten.kept place (hspare path hpath).symm, hentry]
  · exact hentry

theorem Action.mem_touched_of_mem_aim? (h : path ∈ action.aim?) : path ∈ action.touched := by
  cases action with
  | makeDirs folder => exact absurd h (by simp [aim?])
  | copy source target => exact List.mem_singleton.2 (Option.some.inj h).symm
  | write target text => exact List.mem_singleton.2 (Option.some.inj h).symm

/-- A place that an action may not change is as it was, also if nothing is
    there. This asks more than `lookup_perform`, as the directories that may be
    made count as well. -/
theorem lookup_perform_of_untouched {done : Except Files.Cause Unit}
    (habs : ∀ path ∈ action.touched, path.isAbsolute = true)
    (hne : ∀ path ∈ action.touched, path.place ≠ place)
    (h : action.perform files = (after, done)) : after.lookup place = files.lookup place := by
  have haim : ∀ path ∈ action.aim?, path.isAbsolute = true :=
    fun path hpath => habs path (Action.mem_touched_of_mem_aim? hpath)
  rcases perform_cases haim h with
    ⟨folder, rfl, rfl⟩ | ⟨path, data, hpath, -, hwritten, -⟩ | ⟨rfl, -⟩
  · exact Files.lookup_makeDirs_of_ne (habs folder folder.mem_ancestors_self) hne
  · exact hwritten.kept place (hne path (Action.mem_touched_of_mem_aim? hpath)).symm
  · rfl

/-- Either the first action is done and the others are performed on what it
    leaves, or it fails and nothing else happens. The failure is always one to
    write, at the path of the action. -/
theorem performAll_cons_cases (h : performAll (action :: actions) files = (after, result)) :
    (∃ middle, action.perform files = (middle, .ok ()) ∧
      performAll actions middle = (after, result)) ∨
      (∃ cause, action.perform files = (after, .error cause) ∧
        result = .error (.write action.path cause)) := by
  rw [performAll] at h
  split at h
  · next middle hdone => exact .inl ⟨middle, hdone, h⟩
  · next middle cause hdone =>
    rw [Prod.mk.injEq] at h
    exact .inr ⟨cause, by rw [hdone, h.1], h.2.symm⟩

/-- Either the first actions are all done and the others are performed on what
    they leave, or they stop and their failure is that of the whole. The
    induction is on the first actions. -/
theorem performAll_append_cases (h : performAll (first ++ second) files = (after, result)) :
    (∃ middle, performAll first files = (middle, .ok ()) ∧
      performAll second middle = (after, result)) ∨
      (∃ failure, performAll first files = (after, .error failure) ∧ result = .error failure) := by
  induction first generalizing files with
  | nil => exact .inl ⟨files, rfl, h⟩
  | cons action first ih =>
    rcases performAll_cons_cases h with ⟨middle, hdone, hrest⟩ | ⟨cause, hdone, hresult⟩
    · simp only [performAll, hdone]
      exact ih hrest
    · refine .inr ⟨_, ?_, hresult⟩
      simp only [performAll, hdone]

/-- Only a failure to write stops the actions: making directories and copying
    name their failures like writing does. -/
theorem eq_write_of_performAll (h : performAll actions files = (after, .error failure)) :
    ∃ path cause, failure = .write path cause := by
  induction actions generalizing files with
  | nil => exact absurd (congrArg Prod.snd h) (by simp [performAll])
  | cons action actions ih =>
    rcases performAll_cons_cases h with ⟨middle, -, hrest⟩ | ⟨cause, -, hresult⟩
    · exact ih hrest
    · exact ⟨action.path, cause, Except.error.inj hresult⟩

/-- Actions take nothing away, however many of them there are and wherever they
    stop. So a path that leads to a file goes on to do so. -/
theorem extends_performAll (haim : AimAbsolutely actions)
    (h : performAll actions files = (after, result)) :
    Extends files after := by
  induction actions generalizing files with
  | nil =>
    obtain rfl := congrArg Prod.fst h
    exact .refl files
  | cons action actions ih =>
    obtain ⟨haction, hactions⟩ := aimAbsolutely_cons.1 haim
    rcases performAll_cons_cases h with ⟨middle, hdone, hrest⟩ | ⟨cause, hdone, -⟩
    · exact (extends_perform haction hdone).trans (ih hactions hrest)
    · exact extends_perform haction hdone

/-- What is at a place that no action is aimed at stays there, also if the
    actions stop half-way. It need not be asked which of the actions have been
    performed. -/
theorem lookup_performAll (haim : AimAbsolutely actions) (hspare : Spare actions place)
    (hentry : files.lookup place = some entry) (h : performAll actions files = (after, result)) :
    after.lookup place = some entry := by
  induction actions generalizing files with
  | nil =>
    obtain rfl := congrArg Prod.fst h
    exact hentry
  | cons action actions ih =>
    obtain ⟨haction, hactions⟩ := aimAbsolutely_cons.1 haim
    obtain ⟨hspared, hrest⟩ := spare_cons.1 hspare
    rcases performAll_cons_cases h with ⟨middle, hdone, hafter⟩ | ⟨cause, hdone, -⟩
    · exact ih hactions hrest (lookup_perform haction hspared hentry hdone) hafter
    · exact lookup_perform haction hspared hentry hdone

/-- Where no action may change anything all is as it was, be it a file, a
    directory or nothing. Absolute paths are asked for all that is touched, the
    directories on the way included. -/
theorem lookup_performAll_of_untouched
    (habs : ∀ action ∈ actions, ∀ path ∈ action.touched, path.isAbsolute = true)
    (hne : ∀ action ∈ actions, ∀ path ∈ action.touched, path.place ≠ place)
    (h : performAll actions files = (after, result)) : after.lookup place = files.lookup place := by
  induction actions generalizing files with
  | nil =>
    obtain rfl := congrArg Prod.fst h
    rfl
  | cons action actions ih =>
    obtain ⟨habsFirst, habsRest⟩ := List.forall_mem_cons.1 habs
    obtain ⟨hneFirst, hneRest⟩ := List.forall_mem_cons.1 hne
    rcases performAll_cons_cases h with ⟨middle, hdone, hafter⟩ | ⟨cause, hdone, -⟩
    · rw [ih habsRest hneRest hafter]
      exact lookup_perform_of_untouched habsFirst hneFirst hdone
    · exact lookup_perform_of_untouched habsFirst hneFirst hdone

/-- Unless the actions stop before, what an action puts at a place stays there
    if no later one is aimed at the place. The earlier actions are free to do
    anything, so the data are those that the action finds. -/
theorem probe_of_put (haim : AimAbsolutely (first ++ action :: second)) (hpath : path ∈ action.aim?)
    (hspare : Spare second path.place)
    (h : performAll (first ++ action :: second) files = (after, result)) :
    (∃ middle data, performAll first files = (middle, .ok ()) ∧ action.Puts middle data ∧
      after.probe path = .file data) ∨
    (∃ failure, performAll (first ++ [action]) files = (after, .error failure) ∧
      result = .error failure) := by
  rw [List.append_cons] at h
  rcases performAll_append_cases h with ⟨done, hdone, hlater⟩ | hstopped
  · obtain ⟨haction, hsecond⟩ := aimAbsolutely_cons.1 (aimAbsolutely_append.1 haim).2
    have habs : path.isAbsolute = true := haction path hpath
    rcases performAll_append_cases hdone with ⟨middle, hmiddle, hlast⟩ | ⟨failure, -, hfailed⟩
    · rcases performAll_cons_cases hlast with ⟨put, hput, hnothing⟩ | ⟨cause, -, hfailed⟩
      · obtain rfl : put = done := congrArg Prod.fst hnothing
        rcases perform_cases haction hput with
          ⟨folder, rfl, -⟩ | ⟨target, data, haimed, hdata, hwritten, -⟩ |
          ⟨-, cause, hfailed⟩
        · exact absurd hpath (by simp [Action.aim?])
        · obtain rfl : path = target := Option.some.inj (hpath.symm.trans haimed)
          have hentry := Files.lookup_place_of_probe habs hwritten.shown
          have hkept := lookup_performAll hsecond hspare hentry hlater
          have hprobe :=
            Files.probe_of_extends habs (extends_performAll hsecond hlater) hwritten.shown hkept
          exact .inl ⟨middle, data, hmiddle, hdata, hprobe⟩
        · exact absurd hfailed (by simp)
      · exact absurd hfailed (by simp)
    · exact absurd hfailed (by simp)
  · exact .inr hstopped

/-- What was written is there in the end if no later action is aimed at its
    place. As all actions have been performed, the case that they stop before
    falls away. -/
theorem probe_of_write (haim : AimAbsolutely (first ++ .write path text :: second))
    (hspare : Spare second path.place)
    (h : performAll (first ++ .write path text :: second) files = (after, .ok ())) :
    after.probe path = .file (.text text) := by
  rcases probe_of_put haim rfl hspare h with
    ⟨middle, data, -, hdata, hprobe⟩ | ⟨failure, -, hfailed⟩
  · rwa [show data = .text text from hdata] at hprobe
  · exact absurd hfailed (by simp)

/-- The last write is the only action whose failure does not say that an
    earlier one failed, and it changes nothing when it fails. So nothing is
    asked of its path. -/
theorem lookup_of_failure (haim : AimAbsolutely (first ++ [.write path text]))
    (hspare : Spare first place) (hentry : files.lookup place = some entry)
    (h : performAll (first ++ [.write path text]) files = (after, .error failure)) :
    after.lookup place = some entry := by
  obtain ⟨hfirst, hlast⟩ := aimAbsolutely_append.1 haim
  rcases performAll_append_cases h with ⟨middle, hdone, hwrite⟩ | ⟨failure, hfailed, -⟩
  · have hmiddle := lookup_performAll hfirst hspare hentry hdone
    rcases performAll_cons_cases hwrite with ⟨written, -, hnothing⟩ | ⟨cause, hfailed, -⟩
    · exact absurd (congrArg Prod.snd hnothing) (by simp [performAll])
    · rcases perform_cases (aimAbsolutely_cons.1 hlast).1 hfailed with
        ⟨folder, hfolder, -⟩ | ⟨_, _, -, -, -, hok⟩ |
        ⟨rfl, -⟩
      · exact absurd hfolder (by simp)
      · exact absurd hok (by simp)
      · exact hmiddle
  · exact lookup_performAll hfirst hspare hentry hfailed

end

end Split

end EntitySplit
