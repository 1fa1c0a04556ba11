import EntitySplit.Proofs.Backup.Place
import EntitySplit.Proofs.Split.Performed
import EntitySplit.Proofs.Split.Planned
import EntitySplit.Split.Run
import Mathlib.Control.Monad.Basic

namespace EntitySplit

namespace Split

open Files (Place Entry)

/-- That the plan for a document has been carried out as far as its actions
    could be done. `done` tells whether one of them has failed; the files after
    it are those that the earlier ones have left. -/
structure CarriedOut (files : Files) (source : Path) (options : Options) (stamp : Text)
    (document : Document) (plan : Plan) (after : Files) (done : Except Failure Unit) : Prop where
  loaded : Document.load files.view source = .ok document
  planned : Split.plan files.view options document = .ok (some plan)
  performed : performAll (actions options.settings stamp plan) files = (after, done)

section

variable {files after : Files} {source : Path} {options : Options} {stamp : Text}
  {result : Except Failure Report} {report : Report} {todo : List Action}

/-- What is prepared: nothing for a document without blocks, else the actions
    of the plan, but none in a dry run. The report is fixed before anything is
    done, so it is the same in a dry run. -/
theorem prepare_cases {view : Files.View}
    (h : prepare view source options stamp = .ok (todo, report)) :
    ∃ document, Document.load view source = .ok document ∧
      ((Split.plan view options document = .ok none ∧ todo = [] ∧
        report = emptyReport options document) ∨
        ∃ plan, Split.plan view options document = .ok (some plan) ∧
          todo = (if options.dryRun then [] else actions options.settings stamp plan) ∧
          report = reportOn options stamp plan) := by
  unfold prepare at h
  obtain ⟨document, hload, hrest⟩ := exists_of_bind_eq_ok h
  obtain ⟨planned, hplan, hprepared⟩ := exists_of_bind_eq_ok hrest
  refine ⟨document, hload, ?_⟩
  cases planned with
  | none =>
    obtain ⟨htodo, hreport⟩ := Prod.mk.inj (Except.ok.inj hprepared)
    exact .inl ⟨hplan, htodo.symm, hreport.symm⟩
  | some plan =>
    obtain ⟨htodo, hreport⟩ := Prod.mk.inj (Except.ok.inj hprepared)
    exact .inr ⟨plan, hplan, htodo.symm, hreport.symm⟩

/-- A run whose preparation succeeds performs what has been prepared, and only
    a failure of an action keeps the prepared report from being its result. -/
theorem eq_of_run_of_prepare
    (hprepare : prepare files.view source options stamp = .ok (todo, report))
    (hrun : run files source options stamp = (after, result)) :
    ∃ done, performAll todo files = (after, done) ∧ result = done.map fun _ => report := by
  rw [run, hprepare] at hrun
  dsimp only at hrun
  split at hrun
  · next hdone =>
    obtain ⟨rfl, rfl⟩ := Prod.mk.inj hrun
    exact ⟨_, hdone, rfl⟩
  · next hdone =>
    obtain ⟨rfl, rfl⟩ := Prod.mk.inj hrun
    exact ⟨_, hdone, rfl⟩

/-- A run that is not dry carries out its plan, if there is one; every other
    run changes nothing. The statements about whole runs start from these two
    cases and need no other look into `run`. -/
theorem run_cases (hrun : run files source options stamp = (after, result)) :
    (after = files ∧ ((∃ failure, result = .error failure) ∨
      ∃ report, result = .ok report ∧ (report.classes = [] ∨ options.dryRun = true))) ∨
    (options.dryRun = false ∧
      ∃ document plan done, CarriedOut files source options stamp document plan after done ∧
      result = done.map fun _ => reportOn options stamp plan) := by
  cases hprepare : prepare files.view source options stamp with
  | error failure =>
    rw [run, hprepare, Prod.mk.injEq] at hrun
    exact .inl ⟨hrun.1.symm, .inl ⟨failure, hrun.2.symm⟩⟩
  | ok prepared =>
    obtain ⟨todo, report⟩ := prepared
    obtain ⟨done, hdone, hresult⟩ := eq_of_run_of_prepare hprepare hrun
    have hnothing (htodo : todo = []) : after = files ∧ result = .ok report := by
      rw [htodo, performAll, Prod.mk.injEq] at hdone
      exact ⟨hdone.1.symm, by rw [hresult, ← hdone.2]; rfl⟩
    obtain ⟨document, hload, ⟨-, htodo, hreport⟩ | ⟨plan, hplan, htodo, hreport⟩⟩ :=
      prepare_cases hprepare
    · obtain ⟨hafter, hok⟩ := hnothing htodo
      exact .inl ⟨hafter, .inr ⟨report, hok, .inl (by rw [hreport]; rfl)⟩⟩
    · cases hdry : options.dryRun with
      | true =>
        obtain ⟨hafter, hok⟩ := hnothing (by rw [htodo, if_pos hdry])
        exact .inl ⟨hafter, .inr ⟨report, hok, .inr rfl⟩⟩
      | false =>
        rw [htodo, hdry] at hdone
        exact .inr ⟨rfl, document, plan, done, ⟨hload, hplan, hdone⟩, hreport ▸ hresult⟩

/-- A run that ends with a failure other than one to write, that finds no
    block, or that is a dry run leaves the files as they were. Any failure to
    load, to read or to plan comes before the first action, whatever had been
    planned by then. -/
theorem files_unchanged (hrun : run files source options stamp = (after, result))
    (h : (∃ failure, result = .error failure ∧ ∀ path cause, failure ≠ .write path cause) ∨
      (∃ report, result = .ok report ∧ report.classes = []) ∨ options.dryRun = true) :
        after = files := by
  rcases run_cases hrun with ⟨hafter, -⟩ | ⟨hdry, document, plan, done, hcarried, hresult⟩
  · exact hafter
  · exfalso
    rcases h with ⟨failure, hfailed, hother⟩ | ⟨report, hok, hclasses⟩ | hdry'
    · cases done with
      | ok _ => exact absurd (hfailed.symm.trans hresult) (by simp [Except.map])
      | error stopped =>
        obtain ⟨path, cause, hwrite⟩ := eq_write_of_performAll hcarried.performed
        obtain rfl : failure = stopped := Except.error.inj (hfailed.symm.trans hresult)
        exact hother path cause hwrite
    · cases done with
      | ok _ =>
        obtain ⟨-, -, hblocks, hcovers⟩ := covers_of_plan hcarried.planned
        have hreport : report = reportOn options stamp plan :=
          Except.ok.inj (hok.symm.trans hresult)
        have hlength : plan.classes.length = _ := hcovers.length
        have hnone : plan.classes = [] := by rw [hreport] at hclasses; exact hclasses
        rw [hnone] at hlength
        exact hblocks (List.length_eq_zero_iff.1 hlength.symm)
      | error stopped => exact absurd (hok.symm.trans hresult) (by simp [Except.map])
    · exact absurd (hdry.symm.trans hdry') (by simp)

/-- Files in the root, which is also the working directory, so that a bare name
    is a path to each of them. -/
def filesAtRoot (texts : List (String × String)) : Files :=
  ⟨texts.map fun (name, text) => ([name.toList], .file (.text text.toList)), []⟩

/-- Options with a receiver of one letter and without configured directives,
    which keeps the texts of the runs below short. -/
def briefOptions (embed backup : Bool) : Options :=
  ⟨{ receiver := ['m'], extraUsings := [], backup, embed }, none, none, false⟩

/-- The moment of the runs below. Each of its numbers but the year has fewer
    digits than the stamp gives it. -/
def sampleMoment : Moment :=
  ⟨2024, 3, 7, 9, 5, 1⟩

/-- Two blocks, of which only the first has a file for its entity. A class has
    been planned when the second file turns out to be missing. -/
def halfEmbeddable : Files :=
  filesAtRoot [("D.cs", "m.Entity<A>(a => \x7b \x7d);\nm.Entity<B>(b => \x7b \x7d);\n"),
    ("A.cs", "class A;\n")]

/-- The first class has been planned when the second one is found to have no
    file to go into: the failure is not one to write, and the files are those
    from before the run. -/
theorem files_unchanged_second_target_missing :
    ((run halfEmbeddable ⟨"D.cs".toList⟩ (briefOptions true true) sampleMoment.stamp).2 =
        .error (.missingTarget ['B'] ⟨"/B.cs".toList⟩) ∧
      ∀ path cause, Failure.missingTarget ['B'] ⟨"/B.cs".toList⟩ ≠ .write path cause) ∧
      (run halfEmbeddable ⟨"D.cs".toList⟩ (briefOptions true true) sampleMoment.stamp).1 =
        halfEmbeddable := by
  have hmissing :
    (run halfEmbeddable ⟨"D.cs".toList⟩ (briefOptions true true) sampleMoment.stamp).2 =
        .error (.missingTarget ['B'] ⟨"/B.cs".toList⟩) := by decide +kernel
  have hother : ∀ path cause, Failure.missingTarget ['B'] ⟨"/B.cs".toList⟩ ≠ .write path cause := by
    simp
  exact ⟨⟨hmissing, hother⟩, files_unchanged rfl (.inl ⟨_, hmissing, hother⟩)⟩

/-- A run that succeeds on a document with blocks, and is not dry, has
    performed all actions of the plan. Both premises are read off the options
    and the report, so nothing has to be known of the plan. -/
theorem carriedOut_of_ok (hrun : run files source options stamp = (after, .ok report))
    (hdry : options.dryRun = false) (hblocks : report.classes ≠ []) :
    ∃ document plan, CarriedOut files source options stamp document plan after (.ok ()) ∧
      report = reportOn options stamp plan := by
  rcases run_cases hrun with ⟨-, ⟨failure, hfailed⟩ | ⟨other, hok, hnone⟩⟩ |
    ⟨-, document, plan, done, hcarried, hresult⟩
  · exact absurd hfailed (by simp)
  · obtain rfl := Except.ok.inj hok
    rcases hnone with hnone | hdry'
    · exact absurd hnone hblocks
    · exact absurd (hdry.symm.trans hdry') (by simp)
  · cases done with
    | ok _ => exact ⟨document, plan, hcarried, Except.ok.inj hresult⟩
    | error stopped => exact absurd hresult (by simp [Except.map])

end

/-- What is done before the first write: the directory and the backups are
    made. No file that was there is lost by it, except one that has the path of
    a backup. -/
def preparations (settings : Settings) (stamp : Text) (plan : Plan) : List Action :=
  .makeDirs plan.outputDir :: (backups settings stamp plan).map fun (source, target) =>
    .copy source target

/-- What carries out a planned write. Whether the class stands alone or in its
    entity's file makes no difference to it. -/
def PlannedWrite.action (write : PlannedWrite) : Action :=
  .write write.path write.contents

/-- The actions of a run are its preparations, its writes and the document, in
    this order. The document is last, so that a failure before it can leave it
    alone. -/
theorem actions_eq (settings : Settings) (stamp : Text) (plan : Plan) :
    actions settings stamp plan =
      preparations settings stamp plan ++ plan.writes.map PlannedWrite.action ++
        [.write plan.document.path plan.newText] :=
  rfl

section

variable {files after : Files} {source : Path} {options : Options} {document : Document}
  {plan : Plan} {stamp : Text}
  {settings : Settings} {place : Place} {write : PlannedWrite} {writes : List PlannedWrite}

/-- The preparations leave a place alone if no backup is at it. Making
    directories never takes away a file, so only the backups count, and these
    only if the settings ask for them. -/
theorem spare_preparations :
    Spare (preparations settings stamp plan) place ↔
      (settings.backup = true → ∀ path ∈ changedFiles plan,
        (Backup.pathFor path stamp).place ≠ place) := by
  rw [preparations, spare_cons, backups]
  cases settings.backup with
  | false => simp [Spare, Action.aim?]
  | true => simp [Spare, Action.aim?]

/-- The writes of a plan leave a place alone if none of them has it. Their
    texts and destinations play no part. -/
theorem spare_writes :
    Spare (writes.map PlannedWrite.action) place ↔ ∀ write ∈ writes, write.path.place ≠ place := by
  simp [Spare, PlannedWrite.action, Action.aim?]

/-- A single write leaves every place but its own alone. The document's, which
    is the last action of a run, is met in this form. -/
theorem spare_write {path : Path} {text : Text} :
    Spare [.write path text] place ↔ path.place ≠ place := by
  simp [Spare, Action.aim?]

/-- The document and the entities' files of a plan have absolute paths. Loading
    resolves the document's path, and the plan joins the others to a resolved
    directory. -/
theorem isAbsolute_of_mem_changedFiles (hload : Document.load files.view source = .ok document)
    (hplan : Split.plan files.view options document = .ok (some plan)) :
    ∀ path ∈ changedFiles plan, path.isAbsolute = true := by
  intro path hmem
  obtain ⟨hdocument, -⟩ := covers_of_plan hplan
  rcases List.mem_cons.1 hmem with rfl | hmem
  · rw [hdocument]
    exact Document.isAbsolute_of_load hload
  · obtain ⟨write, hwrite, rfl⟩ := List.mem_map.1 hmem
    exact isAbsolute_of_mem_writes hload hplan (List.mem_filter.1 hwrite).1

/-- All actions of a run that may change a file aim at absolute paths, so what
    they aim at does not depend on the working directory. The frame lemmas for
    `performAll` ask for this. -/
theorem aimAbsolutely_actions (hload : Document.load files.view source = .ok document)
    (hplan : Split.plan files.view options document = .ok (some plan)) :
    AimAbsolutely (actions options.settings stamp plan) := by
  rw [actions_eq, aimAbsolutely_append, aimAbsolutely_append, preparations, aimAbsolutely_cons]
  refine ⟨⟨⟨fun path haim => absurd haim (by simp [Action.aim?]), ?_⟩, ?_⟩, ?_⟩
  · rintro action hmem path haim
    obtain ⟨⟨original, target⟩, hbackup, rfl⟩ := List.mem_map.1 hmem
    obtain rfl := Option.some.inj haim
    unfold backups at hbackup
    split at hbackup
    · obtain ⟨changed, hchanged, hpair⟩ := List.mem_map.1 hbackup
      obtain ⟨-, rfl⟩ := Prod.mk.inj hpair
      exact Backup.isAbsolute_pathFor
        (isAbsolute_of_mem_changedFiles hload hplan changed hchanged) stamp
    · exact absurd hbackup List.not_mem_nil
  · rintro action hmem path haim
    obtain ⟨write, hwrite, rfl⟩ := List.mem_map.1 hmem
    obtain rfl := Option.some.inj haim
    exact isAbsolute_of_mem_writes hload hplan hwrite
  · rintro action hmem path haim
    obtain rfl := List.mem_singleton.1 hmem
    obtain rfl := Option.some.inj haim
    exact isAbsolute_of_mem_changedFiles hload hplan _ List.mem_cons_self

/-- The actions of a plan that has been carried out aim at absolute paths; load
    and plan, which are part of the premise, supply it. -/
theorem CarriedOut.aimAbsolutely {done : Except Failure Unit}
    (h : CarriedOut files source options stamp document plan after done) :
    AimAbsolutely (actions options.settings stamp plan) :=
  aimAbsolutely_actions h.loaded h.planned

/-- Two writes of a plan have different places, unless a `..` in one of their
    paths brings them together. The plan keeps paths apart by their components
    only, so the last premise is needed where `..` occurs, and only there. -/
theorem place_ne_of_apart {other : PlannedWrite}
    (hload : Document.load files.view source = .ok document)
    (hplan : Split.plan files.view options document = .ok (some plan))
    (hwrite : write ∈ plan.writes) (hother : other ∈ plan.writes)
    (hne : other.path.components ≠ write.path.components)
    (hup : .up ∈ other.path.components ∨ .up ∈ write.path.components →
      other.path.place ≠ write.path.place) :
    other.path.place ≠ write.path.place := by
  by_cases hanyUp : .up ∈ other.path.components ∨ .up ∈ write.path.components
  · exact hup hanyUp
  · obtain ⟨hotherUp, hwriteUp⟩ := not_or.1 hanyUp
    intro hplace
    rw [Path.components_of_up_not_mem (isAbsolute_of_mem_writes hload hplan hother) hotherUp,
      Path.components_of_up_not_mem (isAbsolute_of_mem_writes hload hplan hwrite) hwriteUp, hplace]
      at hne
    exact hne rfl

/-- After one write of a plan come others, to different paths, and the
    document. So what a write has put in its place can be followed to the end
    of the run. -/
theorem exists_actions_behind {view : Files.View}
    (hplan : Split.plan view options document = .ok (some plan)) (hwrite : write ∈ plan.writes) :
    ∃ (first : List Action) (back : List PlannedWrite),
      actions settings stamp plan = first ++ .write write.path write.contents ::
        (back.map PlannedWrite.action ++ [.write plan.document.path plan.newText]) ∧
      ∀ other ∈ back, other ∈ plan.writes ∧ other.path.components ≠ write.path.components := by
  obtain ⟨front, back, hwrites⟩ := List.append_of_mem hwrite
  refine ⟨preparations settings stamp plan ++ front.map PlannedWrite.action, back, ?_, ?_⟩
  · simp [actions_eq, hwrites, PlannedWrite.action]
  · obtain ⟨-, -, -, hcovers⟩ := covers_of_plan hplan
    have hnodup := hcovers.nodup
    dsimp only at hnodup
    rw [hwrites, List.map_append, List.map_cons] at hnodup
    have hapart := (List.nodup_cons.1 (List.nodup_append.1 hnodup).2.1).1
    intro other hmem
    exact ⟨by simp [hwrites, hmem], fun hsame => hapart (List.mem_map.2 ⟨other, hmem, hsame⟩)⟩

/-- After a run that has changed files the document is what the report says,
    and so is each file of a class that is not the document and that no other
    path of the report leads to. Only a path with a `..` can do so. The file
    that is the document has to be left out: the document is written last. -/
theorem reported_writes_kept {report : Report}
    (hrun : run files source options stamp = (after, .ok report)) (hdry : options.dryRun = false)
    (hblocks : report.classes ≠ []) :
    (∃ text, report.newText = some text ∧ after.probe report.documentPath = .file (.text text)) ∧
      ∀ write ∈ report.writes, write.path.place ≠ report.documentPath.place →
        (∀ other ∈ report.writes, other ≠ write → .up ∈ other.path.components ∨
          .up ∈ write.path.components →
          other.path.place ≠ write.path.place) →
        after.probe write.path = .file (.text write.contents) := by
  obtain ⟨document, plan, hcarried, rfl⟩ := carriedOut_of_ok hrun hdry hblocks
  have haim := hcarried.aimAbsolutely
  have hdone := hcarried.performed
  refine ⟨⟨plan.newText, rfl, ?_⟩, ?_⟩
  · rw [actions_eq] at haim hdone
    exact probe_of_write haim (fun _ hmem => absurd hmem List.not_mem_nil) hdone
  · intro write hwrite hdocument hothers
    obtain ⟨first, back, hactions, hback⟩ := exists_actions_behind hcarried.planned hwrite
    rw [hactions] at haim hdone
    refine probe_of_write haim ?_ hdone
    rw [spare_append, spare_writes, spare_write]
    refine ⟨fun other hmem => ?_, Ne.symm hdocument⟩
    obtain ⟨hother, hne⟩ := hback other hmem
    exact place_ne_of_apart hcarried.loaded hcarried.planned hwrite hother hne
      (hothers other hother fun heq => hne (by rw [heq]))

/-- Two blocks whose entities both have a file, so that both classes go into
    the files of their entities. -/
def embeddable : Files :=
  filesAtRoot [("D.cs", "m.Entity<A>(a => \x7b \x7d);\nm.Entity<B>(b => \x7b \x7d);\n"),
    ("A.cs", "class A;\n"),
    ("B.cs", "class B;\n")]

/-- A run over two entities' files: the report names both of them, and they and
    the document hold what it says. -/
theorem reported_writes_kept_two_entities :
    ∃ report, (run embeddable ⟨"D.cs".toList⟩ (briefOptions true true) sampleMoment.stamp).2 =
      .ok report ∧
      report.classes ≠ [] ∧ report.writes.map (·.path) = [⟨"/A.cs".toList⟩, ⟨"/B.cs".toList⟩] ∧
      (∃ text, report.newText = some text ∧
        (run embeddable ⟨"D.cs".toList⟩ (briefOptions true true) sampleMoment.stamp).1.probe
          report.documentPath =
          .file (.text text)) ∧
      ∀ write ∈ report.writes,
        (run embeddable ⟨"D.cs".toList⟩ (briefOptions true true) sampleMoment.stamp).1.probe
          write.path =
          .file (.text write.contents) := by
  have hsummary : (run embeddable ⟨"D.cs".toList⟩ (briefOptions true true) sampleMoment.stamp).2.map
      (fun report => (report.classes.length, report.documentPath, report.writes.map (·.path))) =
        .ok (2, ⟨"/D.cs".toList⟩, [⟨"/A.cs".toList⟩, ⟨"/B.cs".toList⟩]) := by decide +kernel
  cases hresult :
    (run embeddable ⟨"D.cs".toList⟩ (briefOptions true true) sampleMoment.stamp).2 with
  | error failure => exact absurd (hresult ▸ hsummary) (by simp [Except.map])
  | ok report =>
    rw [hresult] at hsummary
    simp only [Except.map, Except.ok.injEq, Prod.mk.injEq] at hsummary
    obtain ⟨hclasses, hdocument, hpaths⟩ := hsummary
    have hblocks : report.classes ≠ [] := List.ne_nil_of_length_eq_add_one hclasses
    obtain ⟨hrewritten, hwritten⟩ := reported_writes_kept (Prod.ext rfl hresult) (by decide) hblocks
    refine ⟨report, rfl, hblocks, hpaths, hrewritten, fun write hwrite => ?_⟩
    have hpath : write.path ∈ [(⟨"/A.cs".toList⟩ : Path), ⟨"/B.cs".toList⟩] :=
      hpaths ▸ List.mem_map_of_mem hwrite
    refine hwritten write hwrite ?_ fun other hother _ hup => absurd hup ?_
    · rw [hdocument]
      exact (by decide +kernel : ∀ path ∈ [(⟨"/A.cs".toList⟩ : Path), ⟨"/B.cs".toList⟩],
        path.place ≠ (⟨"/D.cs".toList⟩ : Path).place) _ hpath
    · have hpath' : other.path ∈ [(⟨"/A.cs".toList⟩ : Path), ⟨"/B.cs".toList⟩] :=
        hpaths ▸ List.mem_map_of_mem hother
      have hnone :
        ∀ path ∈ [(⟨"/A.cs".toList⟩ : Path), ⟨"/B.cs".toList⟩], .up ∉ path.components := by
        decide +kernel
      exact not_or.2 ⟨hnone _ hpath', hnone _ hpath⟩

/-- The entity's file is the document: the class appended to it is lost when
    the document is written, although the report still says that it went there. -/
theorem class_lost_in_document :
    (run (filesAtRoot [("A.cs", "m.Entity<A>(a => \x7b \x7d);\n")]) ⟨"A.cs".toList⟩
      (briefOptions true false) sampleMoment.stamp).2.map
        (fun report => (report.classes.length, report.writes)) =
      .ok (1, [⟨⟨"/A.cs".toList⟩, .embedded,
        ("m.Entity<A>(a => \x7b \x7d);\n\npublic class AConfiguration : IEntityTypeConfiguration<A>\n\x7b\n" ++
          "    public void Configure(EntityTypeBuilder<A> a)\n    \x7b\n    \x7d\n\x7d\n").toList⟩]) ∧
      (run (filesAtRoot [("A.cs", "m.Entity<A>(a => \x7b \x7d);\n")]) ⟨"A.cs".toList⟩
        (briefOptions true false) sampleMoment.stamp).1 =
        filesAtRoot [("A.cs", "m.ApplyConfiguration(new AConfiguration());\n")] := by
  decide +kernel

/-- A run that fails leaves the document as it was if none of the files of the
    classes is the document, and none of the backups made of them. Only these
    two premises are needed, as the document itself is written last and its own
    backup lies beside it. -/
theorem document_kept_on_failure {moment : Moment} {failure : Failure}
    (hload : Document.load files.view source = .ok document)
    (hplan : Split.plan files.view options document = .ok (some plan))
    (hwrites : ∀ write ∈ plan.writes, write.path.place ≠ document.path.place)
    (hbackups : options.settings.backup = true → ∀ write ∈ plan.writes,
      write.destination = .embedded →
      (Backup.pathFor write.path moment.stamp).place ≠ document.path.place)
    (hrun : run files source options moment.stamp = (after, .error failure)) :
    after.probe document.path = files.probe document.path := by
  rcases run_cases hrun with ⟨rfl, -⟩ | ⟨-, document', plan', done, hcarried, hresult⟩
  · rfl
  · obtain rfl := Except.ok.inj (hload.symm.trans hcarried.loaded)
    obtain rfl := Option.some.inj (Except.ok.inj (hplan.symm.trans hcarried.planned))
    cases done with
    | ok _ => exact absurd hresult (by simp [Except.map])
    | error stopped =>
      have habs := Document.isAbsolute_of_load hload
      have hprobe := (Document.exists_of_load hload).2
      obtain ⟨name, hname, -⟩ := Files.exists_fileName_of_probe habs hprobe
      obtain ⟨hdocument, -⟩ := covers_of_plan hplan
      have hspare :
        Spare (preparations options.settings moment.stamp plan ++
          plan.writes.map PlannedWrite.action) document.path.place := by
          rw [spare_append, spare_preparations, spare_writes]
          refine ⟨fun hbackup path hmem => ?_, hwrites⟩
          rcases List.mem_cons.1 hmem with rfl | hmem
          · rw [hdocument]
            exact Backup.place_pathFor_ne habs hname (Moment.slash_not_mem_stamp moment)
          · obtain ⟨write, hwrite, rfl⟩ := List.mem_map.1 hmem
            obtain ⟨hmem, hembedded⟩ := List.mem_filter.1 hwrite
            exact hbackups hbackup write hmem (of_decide_eq_true hembedded)
      have haim := hcarried.aimAbsolutely
      have hdone := hcarried.performed
      have hextends := extends_performAll haim hdone
      rw [actions_eq] at haim hdone
      have hentry := lookup_of_failure haim hspare (Files.lookup_place_of_probe habs hprobe) hdone
      rw [hprobe]
      exact Files.probe_of_extends habs hextends hprobe hentry

/-- The file of the second class cannot be written, as there is a directory in
    its place, while that of the first class can. -/
def halfWritable (document : String) : Files :=
  (filesAtRoot [(document, "m.Entity<A>(a => \x7b \x7d);\nm.Entity<B>(b => \x7b \x7d);\n")]).put
    ["BConfiguration.cs".toList] .directory

/-- One class has been written when the second one fails; the document, which
    would have come next, is still what it was. -/
theorem document_kept_on_failure_second_write :
    (run (halfWritable "D.cs") ⟨"D.cs".toList⟩ (briefOptions false true) sampleMoment.stamp).2 =
        .error (.write ⟨"/BConfiguration.cs".toList⟩ .isDirectory) ∧
      (run (halfWritable "D.cs") ⟨"D.cs".toList⟩
        (briefOptions false true) sampleMoment.stamp).1.probe ⟨"/D.cs".toList⟩ =
        (halfWritable "D.cs").probe ⟨"/D.cs".toList⟩ := by
  have hfailed :
    (run (halfWritable "D.cs") ⟨"D.cs".toList⟩ (briefOptions false true) sampleMoment.stamp).2 =
        .error (.write ⟨"/BConfiguration.cs".toList⟩ .isDirectory) := by decide +kernel
  obtain ⟨document, hload, hdocument⟩ : ∃ document,
      Document.load (halfWritable "D.cs").view ⟨"D.cs".toList⟩ = .ok document ∧
        document = ⟨⟨"/D.cs".toList⟩,
          "m.Entity<A>(a => \x7b \x7d);\nm.Entity<B>(b => \x7b \x7d);\n".toList⟩ :=
    ⟨_, by decide +kernel, rfl⟩
  have hapart : (Split.plan (halfWritable "D.cs").view (briefOptions false true) document).map
      (·.map fun plan => plan.writes.all fun write =>
        write.path.place ≠ document.path.place ∧ write.destination = .standalone) =
          .ok (some true) := by
    rw [hdocument]
    decide +kernel
  refine ⟨hfailed, ?_⟩
  cases hplan : Split.plan (halfWritable "D.cs").view (briefOptions false true) document with
  | error failure => exact absurd (hplan ▸ hapart) (by simp [Except.map])
  | ok planned =>
    cases planned with
    | none => exact absurd (hplan ▸ hapart) (by simp [Except.map])
    | some plan =>
      have hwrites : ∀ write ∈ plan.writes,
          write.path.place ≠ document.path.place ∧ write.destination = .standalone := by
        simpa [hplan, Except.map] using hapart
      have hkept :=
        document_kept_on_failure hload hplan (fun write hwrite => (hwrites write hwrite).1)
          (fun _ write hwrite hembedded => absurd hembedded (by simp [(hwrites write hwrite).2]))
            (Prod.ext rfl hfailed)
      rwa [hdocument] at hkept

/-- A class of the document's own name is written over it before the second one
    fails. So the premise on the writes in `document_kept_on_failure` cannot be
    left out. -/
theorem document_lost_on_failure :
    (run (halfWritable "AConfiguration.cs") ⟨"AConfiguration.cs".toList⟩ (briefOptions false false)
        sampleMoment.stamp).2 = .error (.write ⟨"/BConfiguration.cs".toList⟩ .isDirectory) ∧
      (run (halfWritable "AConfiguration.cs") ⟨"AConfiguration.cs".toList⟩
        (briefOptions false false) sampleMoment.stamp).1.probe ⟨"/AConfiguration.cs".toList⟩ ≠
        (halfWritable "AConfiguration.cs").probe ⟨"/AConfiguration.cs".toList⟩ := by
  decide +kernel

end

end Split

end EntitySplit
