import EntitySplit.Proofs.Split.Effect

namespace EntitySplit

namespace Split

/-- That two reports tell the same of the document, the classes and the files
    to be written. The backups and the mark of a dry run are left out, as a dry
    run makes no backups. -/
structure Report.Agrees (report other : Report) : Prop where
  documentPath : report.documentPath = other.documentPath
  classes : report.classes = other.classes
  writes : report.writes = other.writes
  oldText : report.oldText = other.oldText
  newText : report.newText = other.newText
  warnings : report.warnings = other.warnings

section

variable {files after : Files} {view : Files.View} {source path : Path} {options : Options}
  {stamp : Text} {document : Document} {plan : Plan} {action : Action} {place : Files.Place}
  {failure : Failure} {done : Except Failure Unit}

/-- Planning does not look at whether a run is dry. -/
theorem plan_dryRun (view : Files.View) (options : Options) (document : Document) (dryRun : Bool) :
    Split.plan view { options with dryRun } document = Split.plan view options document :=
  rfl

/-- Preparation fails only where the document cannot be loaded or its classes
    cannot be planned. Neither the stamp nor the mark of a dry run is in what
    it says. -/
theorem prepare_eq_error_iff :
    prepare view source options stamp = .error failure ↔
      Document.load view source = .error failure ∨
        ∃ document, Document.load view source = .ok document ∧
          Split.plan view options document = .error failure := by
  unfold prepare
  cases Document.load view source with
  | error cause => simp [bind, Except.bind]
  | ok document =>
    cases hplan : Split.plan view options document with
    | error cause => simp [bind, Except.bind, hplan]
    | ok planned => cases planned <;> simp [bind, Except.bind, hplan, pure, Except.pure]

/-- Whether a run is dry makes no difference to how it can fail before it
    changes anything, and neither does the moment at which it begins. -/
theorem prepare_dryRun_eq_error_iff (dryRun dryRun' : Bool) (stamp stamp' : Text) :
    prepare view source { options with dryRun } stamp = .error failure ↔
      prepare view source { options with dryRun := dryRun' } stamp' = .error failure := by
  rw [prepare_eq_error_iff, prepare_eq_error_iff]
  simp only [plan_dryRun]

/-- Two preparations that differ in the mark of a dry run and in the stamp
    report the same of the document, the classes and the writes. -/
theorem agrees_of_prepare {dryRun dryRun' : Bool} {stamp' : Text} {todo todo' : List Action}
    {report report' : Report}
    (h : prepare view source { options with dryRun } stamp = .ok (todo, report))
    (h' : prepare view source { options with dryRun := dryRun' } stamp' = .ok (todo', report')) :
    report.Agrees report' := by
  obtain ⟨document, hload, hplanned⟩ := prepare_cases h
  obtain ⟨other, hload', hplanned'⟩ := prepare_cases h'
  obtain rfl := Except.ok.inj (hload.symm.trans hload')
  rw [plan_dryRun] at hplanned hplanned'
  rcases hplanned with ⟨hplan, -, rfl⟩ | ⟨plan, hplan, -, rfl⟩
  · rcases hplanned' with ⟨-, -, rfl⟩ | ⟨other, hplan', -⟩
    · exact ⟨rfl, rfl, rfl, rfl, rfl, rfl⟩
    · exact absurd (hplan.symm.trans hplan') (by simp)
  · rcases hplanned' with ⟨hplan', -⟩ | ⟨other, hplan', -, rfl⟩
    · exact absurd (hplan.symm.trans hplan') (by simp)
    · obtain rfl := Option.some.inj (Except.ok.inj (hplan.symm.trans hplan'))
      exact ⟨rfl, rfl, rfl, rfl, rfl, rfl⟩

/-- A run whose preparation fails ends with that failure and leaves the files
    as they were. -/
theorem run_eq_of_prepare_error (h : prepare files.view source options stamp = .error failure) :
    run files source options stamp = (files, .error failure) := by
  rw [run, h]

/-- A dry run does nothing, and reports what has been prepared; if the
    preparation fails, so does it. -/
theorem run_of_dryRun (hdry : options.dryRun = true) :
    run files source options stamp =
      (files, (prepare files.view source options stamp).map Prod.snd) := by
  cases hprepare : prepare files.view source options stamp with
  | error failure => exact run_eq_of_prepare_error hprepare
  | ok prepared =>
    obtain ⟨todo, report⟩ := prepared
    obtain ⟨document, -, ⟨-, rfl, -⟩ | ⟨plan, -, htodo, -⟩⟩ := prepare_cases hprepare
    · rw [run, hprepare]
      rfl
    · rw [if_pos hdry] at htodo
      rw [run, hprepare, htodo]
      rfl

/-- The paths at which carrying out a plan may change something: the document,
    the files of the classes, the backups, and the output directory with those
    above it. -/
def Plan.touched (settings : Settings) (stamp : Text) (plan : Plan) : List Path :=
  plan.document.path :: plan.writes.map (·.path) ++
    (backups settings stamp plan).map (·.2) ++ plan.outputDir.ancestors

/-- What an action of a plan may change is at one of the plan's paths. Each
    action is one of the four kinds that `Plan.touched` lists. -/
theorem mem_touched_of_mem_actions {settings : Settings}
    (hmem : action ∈ actions settings stamp plan)
    (hpath : path ∈ action.touched) : path ∈ plan.touched settings stamp := by
  rw [actions_eq, List.mem_append, List.mem_append, preparations, List.mem_cons] at hmem
  rw [Plan.touched, List.mem_append, List.mem_append, List.mem_cons]
  rcases hmem with ((rfl | hbackup) | hwrite) | hdocument
  · exact .inr hpath
  · obtain ⟨⟨original, target⟩, hpair, rfl⟩ := List.mem_map.1 hbackup
    obtain rfl := List.mem_singleton.1 hpath
    exact .inl (.inr (List.mem_map_of_mem hpair))
  · obtain ⟨write, hmem, rfl⟩ := List.mem_map.1 hwrite
    obtain rfl := List.mem_singleton.1 hpath
    exact .inl (.inl (.inr (List.mem_map_of_mem hmem)))
  · obtain rfl := List.mem_singleton.1 hdocument
    exact .inl (.inl (.inl (List.mem_singleton.1 hpath)))

/-- The actions of a plan touch absolute paths only. The document and the
    output directory supply this, since all others are made from these two. -/
theorem isAbsolute_of_mem_touched (hload : Document.load files.view source = .ok document)
    (hplan : Split.plan files.view options document = .ok (some plan))
    (hmem : action ∈ actions options.settings stamp plan) (hpath : path ∈ action.touched) :
    path.isAbsolute = true := by
  have haim : ∀ target ∈ action.aim?, target.isAbsolute = true :=
    aimAbsolutely_actions hload hplan action hmem
  cases action with
  | makeDirs folder =>
    obtain ⟨-, hfolder, -, -⟩ := covers_of_plan hplan
    obtain rfl : folder = plan.outputDir := by
      simpa [actions_eq, preparations, PlannedWrite.action] using hmem
    exact Path.isAbsolute_of_mem_ancestors (isAbsolute_outputDir hload hfolder) hpath
  | copy original target =>
    rw [List.mem_singleton.1 hpath]
    exact haim target rfl
  | write target text =>
    rw [List.mem_singleton.1 hpath]
    exact haim target rfl

/-- What carrying out a plan changes is at one of the paths that it may touch,
    also if it stops half-way. It is what `lookup_performAll_of_untouched`
    says, read the other way. -/
theorem CarriedOut.exists_touched
    (h : CarriedOut files source options stamp document plan after done)
    (hchanged : after.lookup place ≠ files.lookup place) :
    ∃ path ∈ plan.touched options.settings stamp, path.place = place := by
  by_contra hnone
  refine hchanged (lookup_performAll_of_untouched ?_ ?_ h.performed)
  · exact fun action hmem path hpath => isAbsolute_of_mem_touched h.loaded h.planned hmem hpath
  · exact fun action hmem path hpath hplace =>
      hnone ⟨path, mem_touched_of_mem_actions hmem hpath, hplace⟩

/-- That a report tells of a place: that of the document, of a file to be
    written or of a backup, or of a directory on the way to the classes. -/
def Report.TellsOf (report : Report) (folder : Path) (place : Files.Place) : Prop :=
  ∃ path ∈ report.documentPath :: report.writes.map (·.path) ++ report.backups ++ folder.ancestors,
    path.place = place

/-- What a run that succeeds has changed is told by its report. There are
    classes then, and the document could be loaded, so that the output
    directory is known. -/
theorem tellsOf_of_changed {report : Report}
    (hrun : run files source options stamp = (after, .ok report))
    (hchanged : after.lookup place ≠ files.lookup place) :
    report.classes ≠ [] ∧ ∃ document folder, Document.load files.view source = .ok document ∧
      outputDir files.view options document = .ok folder ∧ report.TellsOf folder place := by
  rcases run_cases hrun with ⟨rfl, -⟩ | ⟨hdry, document, plan, done, hcarried, hresult⟩
  · exact absurd rfl hchanged
  · cases done with
    | error failure => exact absurd hresult (by simp [Except.map])
    | ok _ =>
      obtain rfl : report = reportOn options stamp plan := Except.ok.inj hresult
      obtain ⟨-, hfolder, -, -⟩ := covers_of_plan hcarried.planned
      refine ⟨classes_ne_nil_of_plan hcarried.planned, document, plan.outputDir, hcarried.loaded,
        hfolder, ?_⟩
      have htold :
        (reportOn options stamp plan).backups =
          (backups options.settings stamp plan).map (·.2) := by
        rw [reportOn, if_neg (by simp [hdry])]
      obtain ⟨path, hmem, hplace⟩ := hcarried.exists_touched hchanged
      refine ⟨path, ?_, hplace⟩
      rw [htold]
      exact hmem

/-- A run that is known to succeed has a report. The evaluated runs below
    establish the success first and the report from it. -/
theorem exists_eq_ok_of_isOk {result : Except Failure Report} (h : result.isOk = true) :
    ∃ report, result = .ok report := by
  cases result with
  | error failure => exact absurd h (by simp [Except.isOk, Except.toBool])
  | ok report => exact ⟨report, rfl⟩

/-- A dry run is a faithful preview of the run that is not dry: if it fails,
    that run fails alike and changes nothing, and if both succeed, they report
    the same, and nothing has changed that the report does not tell of. The two
    runs may have different stamps, and nothing is asked of the files or the
    options. -/
theorem dryRun_previews (files : Files) (source : Path) (options : Options) (stamp stamp' : Text) :
    (∀ failure, (run files source { options with dryRun := true } stamp).2 = .error failure →
      run files source { options with dryRun := false } stamp' = (files, .error failure)) ∧
    ∀ preview after report,
      (run files source { options with dryRun := true } stamp).2 = .ok preview →
      run files source { options with dryRun := false } stamp' = (after, .ok report) →
      report.Agrees preview ∧
        ∀ place, after.lookup place ≠ files.lookup place →
          report.classes ≠ [] ∧ ∃ document folder, Document.load files.view source = .ok document ∧
            outputDir files.view options document = .ok folder ∧ report.TellsOf folder place := by
  rw [run_of_dryRun rfl]
  constructor
  · intro failure hfailed
    cases hprepare : prepare files.view source { options with dryRun := true } stamp with
    | error cause =>
      obtain rfl : cause = failure := by simpa [hprepare, Except.map] using hfailed
      exact run_eq_of_prepare_error
        ((prepare_dryRun_eq_error_iff true false stamp stamp').1 hprepare)
    | ok prepared => simp [hprepare, Except.map] at hfailed
  · intro preview after report hpreview hrun
    refine ⟨?_, fun place hchanged => ?tells⟩
    case tells =>
      have htold := tellsOf_of_changed hrun hchanged
      exact htold
    cases hprepare : prepare files.view source { options with dryRun := true } stamp with
    | error cause => simp [hprepare, Except.map] at hpreview
    | ok prepared =>
      obtain ⟨_, shown⟩ := prepared
      obtain rfl : shown = preview := by simpa [hprepare, Except.map] using hpreview
      cases hprepare' : prepare files.view source { options with dryRun := false } stamp' with
      | error cause => simp [run_eq_of_prepare_error hprepare'] at hrun
      | ok prepared' =>
        obtain ⟨todo, made⟩ := prepared'
        obtain ⟨done, -, hresult⟩ := eq_of_run_of_prepare hprepare' hrun
        cases done with
        | error cause => exact absurd hresult (by simp [Except.map])
        | ok _ =>
          obtain rfl := Except.ok.inj hresult
          exact agrees_of_prepare hprepare' hprepare

/-- Both parts at runs that embed classes: one for which an entity's file is
    missing, and one that succeeds and changes an entity's file of which the
    preview has told. -/
theorem dryRun_previews_embedding :
    ((run halfEmbeddable ⟨"D.cs".toList⟩
      { briefOptions true true with dryRun := true } sampleMoment.stamp).2 =
        .error (.missingTarget ['B'] ⟨"/B.cs".toList⟩) ∧
      run halfEmbeddable ⟨"D.cs".toList⟩ (briefOptions true true) sampleMoment.stamp =
        (halfEmbeddable, .error (.missingTarget ['B'] ⟨"/B.cs".toList⟩))) ∧
    ∃ preview after report,
      (run embeddable ⟨"D.cs".toList⟩
        { briefOptions true true with dryRun := true } sampleMoment.stamp).2 =
        .ok preview ∧
      run embeddable ⟨"D.cs".toList⟩ (briefOptions true true) sampleMoment.stamp =
        (after, .ok report) ∧
      after.lookup ["A.cs".toList] ≠ embeddable.lookup ["A.cs".toList] ∧
      report.Agrees preview ∧ ∃ folder, report.TellsOf folder ["A.cs".toList] := by
  have hfailed : (run halfEmbeddable ⟨"D.cs".toList⟩ { briefOptions true true with dryRun := true }
      sampleMoment.stamp).2 = .error (.missingTarget ['B'] ⟨"/B.cs".toList⟩) := by decide +kernel
  refine ⟨⟨hfailed, (dryRun_previews _ _ (briefOptions true true) _ _).1 _ hfailed⟩, ?_⟩
  have hdry : (run embeddable ⟨"D.cs".toList⟩ { briefOptions true true with dryRun := true }
      sampleMoment.stamp).2.isOk = true := by decide +kernel
  have hreal :
    (run embeddable ⟨"D.cs".toList⟩ (briefOptions true true) sampleMoment.stamp).2.isOk = true := by
    decide +kernel
  have hchanged :
    (run embeddable ⟨"D.cs".toList⟩ (briefOptions true true) sampleMoment.stamp).1.lookup
        ["A.cs".toList] ≠ embeddable.lookup ["A.cs".toList] := by decide +kernel
  obtain ⟨preview, hpreview⟩ := exists_eq_ok_of_isOk hdry
  obtain ⟨report, hreport⟩ := exists_eq_ok_of_isOk hreal
  have hrun : run embeddable ⟨"D.cs".toList⟩ (briefOptions true true) sampleMoment.stamp =
    (_, .ok report) :=
    Prod.ext rfl hreport
  obtain ⟨hagrees, htells⟩ :=
    (dryRun_previews _ _ (briefOptions true true) _ _).2 preview _ report hpreview hrun
  obtain ⟨-, -, folder, -, -, htold⟩ := htells _ hchanged
  exact ⟨preview, _, report, hpreview, hrun, hchanged, hagrees, folder, htold⟩

end

end Split

end EntitySplit
