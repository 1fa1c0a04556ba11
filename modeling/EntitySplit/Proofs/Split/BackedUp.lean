import EntitySplit.Backup.Create
import EntitySplit.Proofs.ConfigurationClass.Place
import EntitySplit.Proofs.Split.Effect

namespace EntitySplit

namespace ConfigurationClass

end ConfigurationClass

namespace Split

open Files (Place Data)

section

variable {files after : Files} {source path other : Path} {options : Options} {document : Document}
  {plan : Plan} {moment : Moment} {write : PlannedWrite} {done : Except Failure Unit}

/-- What makes the backup of a file: the copy of it beside it, under its name
    with the stamp. The run takes this action for the document and for each
    entity's file. -/
def backupAction (stamp : Text) (path : Path) : Action :=
  .copy path (Backup.pathFor path stamp)

/-- To perform the action for one file is to make its backup: the same files
    stay, and the run stops with the same failure or goes on. No premise is
    needed, for a copy that fails changes nothing. -/
theorem performAll_backupAction (stamp : Text) (path : Path) (rest : List Action) (files : Files) :
    performAll (backupAction stamp path :: rest) files =
      match Backup.create files path stamp with
      | (files, .error failure) => (files, .error failure)
      | (files, .ok _) => performAll rest files := by
  rw [performAll, backupAction, Action.perform, Backup.create]
  cases files.copy path (Backup.pathFor path stamp) with
  | error cause => rfl
  | ok copied => rfl

/-- A run makes its backups as `Backup.createAll` does, and goes on with the
    other actions if all of them are made. The induction is on the files in the
    order of the actions. -/
theorem performAll_backupActions (stamp : Text) (paths : List Path) (rest : List Action)
    (files : Files) :
    performAll (paths.map (backupAction stamp) ++ rest) files =
      match Backup.createAll files stamp paths with
      | (files, .error failure) => (files, .error failure)
      | (files, .ok _) => performAll rest files := by
  induction paths generalizing files with
  | nil => rfl
  | cons path paths ih =>
    rw [List.map_cons, List.cons_append, performAll_backupAction, Backup.createAll]
    obtain ⟨copied, made⟩ := Backup.create files path stamp
    cases made with
    | error failure => rfl
    | ok target =>
      dsimp only
      rw [ih]
      obtain ⟨all, targets⟩ := Backup.createAll copied stamp paths
      cases targets <;> rfl

/-- The backups that a run tells of are those that were made. The report takes
    them from the plan, so it must be shown that making them gives the same
    paths in the same order. -/
theorem eq_map_of_createAll {stamp : Text} {paths targets : List Path}
    (h : Backup.createAll files stamp paths = (after, .ok targets)) :
    targets = paths.map (Backup.pathFor · stamp) := by
  induction paths generalizing files targets with
  | nil => simpa [Backup.createAll, eq_comm] using congrArg Prod.snd h
  | cons path paths ih =>
    rw [Backup.createAll, Backup.create] at h
    cases hcopied : files.copy path (Backup.pathFor path stamp) with
    | error cause => simp [hcopied] at h
    | ok copied =>
      rcases hmade : Backup.createAll copied stamp paths with ⟨last, failure | targets⟩
      · simp [hcopied, hmade] at h
      · simp only [hcopied, hmade, Prod.mk.injEq, Except.ok.injEq] at h
        obtain ⟨rfl, rfl⟩ := h
        rw [ih hmade, List.map_cons]

/-- The actions of a run with backups in the form that the proofs below use:
    the directory, the backups, the new texts and the document, in this order. -/
theorem actions_eq_of_backup {settings : Settings} {stamp : Text}
    (hbackup : settings.backup = true) :
    actions settings stamp plan =
      .makeDirs plan.outputDir :: ((changedFiles plan).map (backupAction stamp) ++
        (plan.writes.map PlannedWrite.action ++ [.write plan.document.path plan.newText])) := by
  rw [actions_eq, preparations, backups, if_pos hbackup, List.map_map, List.append_assoc,
    List.cons_append]
  rfl

/-- A run that succeeds on a document with blocks, is not dry and keeps backups
    has made them as `Backup.createAll` does, one for each file that it changes
    and before any of these was written. The report names the backups that were
    made, in the order in which they were. -/
theorem createAll_of_run {stamp : Text} {report : Report}
    (hrun : run files source options stamp = (after, .ok report))
    (hbackup : options.settings.backup = true) (hdry : options.dryRun = false)
    (hblocks : report.classes ≠ []) :
    ∃ document plan middle copied,
      CarriedOut files source options stamp document plan after (.ok ()) ∧
      files.makeDirs plan.outputDir = (middle, .ok ()) ∧
      Backup.createAll middle stamp (changedFiles plan) = (copied, .ok report.backups) := by
  obtain ⟨document, plan, hcarried, rfl⟩ := carriedOut_of_ok hrun hdry hblocks
  have hperformed := hcarried.performed
  rw [actions_eq_of_backup hbackup] at hperformed
  rcases performAll_cons_cases hperformed with ⟨middle, hfolder, hrest⟩ | ⟨cause, -, hfailed⟩
  · rw [performAll_backupActions] at hrest
    rcases hmade : Backup.createAll middle stamp (changedFiles plan) with
      ⟨copied, failure | targets⟩
    · simp [hmade] at hrest
    · refine ⟨document, plan, middle, copied, hcarried, hfolder, ?_⟩
      have hreported :
          (reportOn options stamp plan).backups =
            (changedFiles plan).map (Backup.pathFor · stamp) := by
        simp [reportOn, hdry, backups, hbackup]
      rw [hmade, hreported, eq_map_of_createAll hmade]
  · exact absurd hfailed (by simp)

end

end Split

end EntitySplit
