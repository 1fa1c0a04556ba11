import EntitySplit.Proofs.Files.Walk
import EntitySplit.Split.Plan

namespace EntitySplit

namespace Document

section

variable {files : Files} {source : Path} {document : Document}

/-- A document that is loaded is a file with the text as its contents, at the
    path that the given one means in the working directory. -/
theorem exists_of_load (h : load files.view source = .ok document) :
    source.absolute? files.workingPath = some document.path ∧
      files.probe document.path = .file (.text document.text) := by
  unfold load at h
  split at h
  · split at h
    · exact absurd h (by simp)
    · next path habsolute =>
      split at h
      · next text htext =>
        obtain rfl := Except.ok.inj h
        refine ⟨habsolute, ?_⟩
        cases hprobe : files.probe path with
        | file data =>
          cases data with
          | text there => simpa [Files.view, hprobe, Files.Probe.text] using htext
          | binary bytes => simp [Files.view, hprobe, Files.Probe.text] at htext
        | directory => simp [Files.view, hprobe, Files.Probe.text] at htext
        | missing cause => simp [Files.view, hprobe, Files.Probe.text] at htext
      · exact absurd h (by simp)
  · exact absurd h (by simp)

/-- A loaded document has an absolute path, because the working directory has
    one. -/
theorem isAbsolute_of_load (h : load files.view source = .ok document) :
    document.path.isAbsolute = true :=
  Path.isAbsolute_absolute? files.isAbsolute_workingPath (exists_of_load h).1

theorem isAbsolute_folder (h : load files.view source = .ok document) :
    document.folder.isAbsolute = true := by
  have habs := isAbsolute_of_load h
  obtain ⟨name, hname, -⟩ := Files.exists_fileName_of_probe habs (exists_of_load h).2
  obtain ⟨parent, hparent, hparentAbs, -⟩ := Path.exists_parent_of_fileName? habs hname
  rwa [folder, hparent, Option.getD_some]

end

end Document

namespace ConfigurationClass

/-- The file that the class of a block goes into: that of the entity where
    classes are embedded, else one of the class's own name. -/
def pathFor (settings : Settings) (folder : Path) (block : Block) : Path :=
  if settings.embed then entityPath settings folder block else standalonePath settings folder block

/-- Where the classes of a document go. It is the same for all of them, as it
    hangs on the settings alone. -/
def destinationFor (settings : Settings) : Destination :=
  if settings.embed then .embedded else .standalone

/-- The file of a class has an absolute path if the output directory has one;
    the names that are joined to it cannot take this away. -/
theorem isAbsolute_pathFor {folder : Path} (habs : folder.isAbsolute = true) (settings : Settings)
    (block : Block) :
    (pathFor settings folder block).isAbsolute = true := by
  unfold pathFor
  split
  · exact Path.isAbsolute_join habs
  · exact Path.isAbsolute_join habs

end ConfigurationClass

namespace Split

open ConfigurationClass

/-- Two steps that succeed together succeed one after the other. Planning is
    taken apart by this, without unfolding the monad. -/
theorem exists_of_bind_eq_ok {α β : Type} {first : Except Failure α} {next : α → Except Failure β}
    {b : β} (h : first >>= next = .ok b) : ∃ a, first = .ok a ∧ next a = .ok b := by
  cases first with
  | error failure => exact absurd h (by simp [bind, Except.bind])
  | ok a => exact ⟨a, rfl, h⟩

section

variable {view : Files.View} {context : Context} {folder : Path} {outcome outcome' : Outcome}
  {block : Block} {blocks : List Block}

/-- A write goes to a path if the two have the same components, so that `a//b`
    and `a/./b` are one path. -/
theorem PlannedWrite.isTo_iff {write : PlannedWrite} {path : Path} :
    write.isTo path = true ↔ write.path.components = path.components :=
  decide_eq_true_iff

/-- What stands among the writes after one more: those to other paths as they
    were, and one to its path with its contents, which keeps the spelling of a
    write that there was. Without distinct paths a second write to the path
    could stay as it was. -/
theorem mem_putWrite {write other : PlannedWrite} {writes : List PlannedWrite}
    (hnodup : (writes.map (·.path.components)).Nodup) (h : other ∈ putWrite write writes) :
    (other ∈ writes ∧ other.isTo write.path = false) ∨
      (∃ old, writes.find? (·.isTo write.path) = some old ∧
        other = { old with contents := write.contents }) ∨
      (writes.find? (·.isTo write.path) = none ∧ other = write) := by
  induction writes with
  | nil => exact .inr (.inr ⟨rfl, List.mem_singleton.1 h⟩)
  | cons head rest ih =>
    obtain ⟨hhead, hrest⟩ := List.nodup_cons.1 hnodup
    rw [putWrite] at h
    split at h
    · next hto =>
      rcases List.mem_cons.1 h with rfl | hmem
      · exact .inr (.inl ⟨head, List.find?_cons_of_pos hto, rfl⟩)
      · refine .inl ⟨List.mem_cons_of_mem _ hmem, Bool.eq_false_iff.2 fun hother => hhead ?_⟩
        exact List.mem_map.2
          ⟨other, hmem, (PlannedWrite.isTo_iff.1 hother).trans (PlannedWrite.isTo_iff.1 hto).symm⟩
    · next hto =>
      have hfind : (head :: rest).find? (·.isTo write.path) = rest.find? (·.isTo write.path) :=
        List.find?_cons_of_neg hto
      rw [hfind]
      rcases List.mem_cons.1 h with rfl | hmem
      · exact .inl ⟨List.mem_cons_self, by simpa using hto⟩
      · rcases ih hrest hmem with ⟨hold, hother⟩ | hfound | hnone
        · exact .inl ⟨List.mem_cons_of_mem _ hold, hother⟩
        · exact .inr (.inl hfound)
        · exact .inr (.inr hnone)

/-- The paths planned for are those that were, and that of the write if it is
    none of them. Their order is that in which they were first asked for. -/
theorem map_path_putWrite (write : PlannedWrite) (writes : List PlannedWrite) :
    (putWrite write writes).map (·.path) =
      writes.map (·.path) ++ if writes.any (·.isTo write.path) then [] else [write.path] := by
  induction writes with
  | nil => rfl
  | cons head rest ih =>
    rw [putWrite]
    split
    · next hto => simp [hto]
    · next hto => simp [hto, ih]

/-- One more write leaves the paths distinct by their components, which is how
    they are compared. -/
theorem nodup_components_putWrite {write : PlannedWrite} {writes : List PlannedWrite}
    (h : (writes.map (·.path.components)).Nodup) :
    ((putWrite write writes).map (·.path.components)).Nodup := by
  have hcomponents (writes : List PlannedWrite) :
      writes.map (·.path.components) = (writes.map (·.path)).map Path.components := by
        rw [List.map_map]; rfl
  rw [hcomponents, map_path_putWrite, List.map_append, ← hcomponents]
  split
  · simpa using h
  · next hnone =>
    rw [List.nodup_append]
    refine ⟨h, by simp, ?_⟩
    rintro components hmem _ hlast rfl
    obtain ⟨old, hold, hsame⟩ := List.mem_map.1 hmem
    rw [List.map_singleton, List.mem_singleton] at hlast
    exact hnone (List.any_eq_true.2 ⟨old, hold, PlannedWrite.isTo_iff.2 (hsame.trans hlast)⟩)

/-- After one more write there is one to its path, be it a new one or one that
    was there before under another spelling. -/
theorem exists_isTo_putWrite (write : PlannedWrite) (writes : List PlannedWrite) :
    ∃ other ∈ putWrite write writes, other.isTo write.path = true := by
  induction writes with
  | nil => exact ⟨write, List.mem_singleton_self write, PlannedWrite.isTo_iff.2 rfl⟩
  | cons head rest ih =>
    rw [putWrite]
    split
    · next hto => exact ⟨_, List.mem_cons_self, hto⟩
    · obtain ⟨other, hmem, hto⟩ := ih
      exact ⟨other, List.mem_cons_of_mem _ hmem, hto⟩

/-- A path that was planned for stays planned for, in the same spelling. Only
    the contents may change. -/
theorem exists_of_mem_of_putWrite {old write : PlannedWrite} {writes : List PlannedWrite}
    (h : old ∈ writes) :
    ∃ other ∈ putWrite write writes, other.path = old.path := by
  have hmem : old.path ∈ (putWrite write writes).map (·.path) := by
    rw [map_path_putWrite]
    exact List.mem_append_left _ (List.mem_map_of_mem h)
  exact List.mem_map.1 hmem

/-- What has been planned for blocks: a class for each and a file for it, no
    two files with one path, and an entity's file only where there is one. It
    says nothing of the contents, which `Outcome.Groups` does. -/
structure Outcome.Covers (view : Files.View) (context : Context) (folder : Path)
    (blocks : List Block) (outcome : Outcome) : Prop where
  length : outcome.classes.length = blocks.length
  origin : ∀ write ∈ outcome.writes, write.destination = destinationFor context.settings ∧
    ∃ block ∈ blocks, write.path = pathFor context.settings folder block
  covered : ∀ block ∈ blocks, ∃ write ∈ outcome.writes,
    write.isTo (pathFor context.settings folder block) = true
  nodup : (outcome.writes.map (·.path.components)).Nodup
  there : context.settings.embed = true → ∀ write ∈ outcome.writes,
    (view.probe write.path).isFile = true

/-- An entity's file whose text can be had is planned for or is there. The
    second case is what keeps an embedding run from making new files. -/
theorem isFile_of_targetText {typeName text : Text} {path : Path}
    (h : targetText view outcome typeName path = .ok text) :
    (∃ write ∈ outcome.writes, write.isTo path = true) ∨ (view.probe path).isFile = true := by
  unfold targetText at h
  split at h
  · next write hfind =>
    have hto := List.find?_some hfind
    exact .inl ⟨write, List.mem_of_find?_eq_some hfind, hto⟩
  · split at h
    · next hfile => exact .inr hfile
    · exact absurd h (by simp)

/-- That a class is one for a block. The line ending of a class that goes into
    an entity's file is that of the file, so it is not told by the block and
    the context. -/
structure MadeFor (context : Context) (folder : Path) (block : Block) (made : ConfigurationClass) :
    Prop where
  typeName : made.typeName = block.content.typeName
  className : made.className = nameFor context.settings block
  path : made.path = pathFor context.settings folder block
  destination : made.destination = destinationFor context.settings
  contents : ∃ lineEnding, made.contents =
    if context.settings.embed then declaration { context with lineEnding } 0 block
      else standaloneContents context block

/-- An entity's file with a class appended, in the file's line ending, together
    with the directives that the class needs. -/
def appendClass (context : Context) (existing : Text) (made : ConfigurationClass) : Text :=
  embedInto existing made.contents (fixedUsings context) (Text.lineEnding existing)

/-- A block adds a class and what its file will hold: the class, or in an
    entity's file what it holds and the class. All that is proved of planning
    starts from this case analysis. -/
theorem exists_of_addBlock (h : addBlock view context folder outcome block = .ok outcome') :
    ∃ made contents, outcome' = outcome.add made contents ∧ MadeFor context folder block made ∧
      (context.settings.embed = false → contents = made.contents) ∧
      (context.settings.embed = true →
        ∃ existing, targetText view outcome block.content.typeName made.path = .ok existing ∧
          contents = appendClass context existing made) := by
  unfold addBlock at h
  split at h
  · next hembed =>
    dsimp only at h
    cases htext :
      targetText view outcome block.content.typeName (entityPath context.settings folder block) with
    | error failure => simp [htext, Except.map] at h
    | ok existing =>
      rw [htext] at h
      refine ⟨_, _, (Except.ok.inj h).symm, ?_, fun hembed' => absurd hembed (by simp [hembed']),
        fun _ =>
        ⟨existing, htext, rfl⟩⟩
      exact ⟨rfl, rfl, (if_pos hembed).symm, (if_pos hembed).symm, _, (if_pos hembed).symm⟩
  · next hembed =>
    refine ⟨_, _, (Except.ok.inj h).symm, ?_, fun _ => rfl, fun hembed' => absurd hembed' hembed⟩
    exact ⟨rfl, rfl, (if_neg hembed).symm, (if_neg hembed).symm, context.lineEnding,
      (if_neg hembed).symm⟩

theorem Outcome.covers_nil : ({} : Outcome).Covers view context folder [] where
  length := rfl
  origin _ hmem := absurd hmem List.not_mem_nil
  covered _ hmem := absurd hmem List.not_mem_nil
  nodup := List.nodup_nil
  there _ _ hmem := absurd hmem List.not_mem_nil

/-- One more block keeps a plan one that covers its blocks. What the block adds
    is told by `exists_of_addBlock`, and `mem_putWrite` tells what becomes of
    the other writes. -/
theorem Outcome.Covers.addBlock (hcovers : outcome.Covers view context folder blocks)
    (h : addBlock view context folder outcome block = .ok outcome') :
    outcome'.Covers view context folder (blocks ++ [block]) := by
  obtain ⟨made, contents, rfl, hmade, -, hexisting⟩ := exists_of_addBlock h
  constructor
  · simp [Outcome.add, hcovers.length]
  · intro write hmem
    rcases mem_putWrite hcovers.nodup hmem with ⟨hold, -⟩ | ⟨old, hfind, rfl⟩ | ⟨-, rfl⟩
    · obtain ⟨hdestination, origin, hblock, hpath⟩ := hcovers.origin write hold
      exact ⟨hdestination, origin, List.mem_append_left _ hblock, hpath⟩
    · obtain ⟨hdestination, origin, hblock, hpath⟩ :=
        hcovers.origin old (List.mem_of_find?_eq_some hfind)
      exact ⟨hdestination, origin, List.mem_append_left _ hblock, hpath⟩
    · exact ⟨hmade.destination, block, by simp, hmade.path⟩
  · intro other hmem
    rcases List.mem_append.1 hmem with hmem | hmem
    · obtain ⟨old, hold, hto⟩ := hcovers.covered other hmem
      obtain ⟨write, hwrite, hsame⟩ := exists_of_mem_of_putWrite hold
      exact ⟨write, hwrite, PlannedWrite.isTo_iff.2 (hsame ▸ PlannedWrite.isTo_iff.1 hto)⟩
    · obtain rfl := List.mem_singleton.1 hmem
      rw [← hmade.path]
      exact exists_isTo_putWrite _ _
  · exact nodup_components_putWrite hcovers.nodup
  · intro hembed write hmem
    rcases mem_putWrite hcovers.nodup hmem with ⟨hold, -⟩ | ⟨old, hfind, rfl⟩ | ⟨hnone, rfl⟩
    · exact hcovers.there hembed write hold
    · exact hcovers.there hembed old (List.mem_of_find?_eq_some hfind)
    · obtain ⟨existing, htext, -⟩ := hexisting hembed
      rcases isFile_of_targetText htext with ⟨old, hold, hto⟩ | hfile
      · exact absurd hto (List.find?_eq_none.1 hnone old hold)
      · exact hfile

/-- What each block keeps holds of what is planned for all of them. The
    predicate may speak of the blocks so far, so the induction is on those that
    are left. -/
theorem foldlM_addBlock {Planned : List Block → Outcome → Prop} {done : List Block}
    (hstep : ∀ done outcome block outcome', Planned done outcome →
      addBlock view context folder outcome block = .ok outcome' →
        Planned (done ++ [block]) outcome')
    (hdone : Planned done outcome)
    (h : blocks.foldlM (addBlock view context folder) outcome = .ok outcome') :
    Planned (done ++ blocks) outcome' := by
  induction blocks generalizing outcome done with
  | nil =>
    obtain rfl := Except.ok.inj h
    rwa [List.append_nil]
  | cons block blocks ih =>
    rw [List.foldlM_cons] at h
    obtain ⟨next, hblock, hrest⟩ := exists_of_bind_eq_ok h
    rw [List.append_cons]
    exact ih (hstep done outcome block next hdone hblock) hrest

/-- What is planned for blocks covers them, whatever the settings are. Only
    that planning has succeeded is needed. -/
theorem covers_of_planBlocks (h : planBlocks view context folder blocks = .ok outcome) :
    outcome.Covers view context folder blocks :=
  foldlM_addBlock (fun _ _ _ _ hcovers => hcovers.addBlock) Outcome.covers_nil h

end

section

variable {files : Files} {source : Path} {options : Options} {document : Document} {folder : Path}
  {plan : Plan} {write : PlannedWrite}

/-- A plan is what planning the classes of the blocks gives, of which there are
    some. A document without blocks has no plan, and its output directory is
    never looked for. -/
theorem planBlocks_of_plan {view : Files.View}
    (h : Split.plan view options document = .ok (some plan)) :
    plan.document = document ∧ outputDir view options document = .ok plan.outputDir ∧
      Block.locate options.settings.receiver document.text ≠ [] ∧
      planBlocks view (contextFor options document) plan.outputDir
        (Block.locate options.settings.receiver document.text) =
          .ok ⟨plan.classes, plan.writes⟩ := by
  unfold Split.plan at h
  split at h
  · exact absurd h (by simp)
  · next hblocks =>
    obtain ⟨folder, hfolder, hrest⟩ := exists_of_bind_eq_ok h
    obtain ⟨outcome, houtcome, hmade⟩ := exists_of_bind_eq_ok hrest
    obtain rfl := Option.some.inj (Except.ok.inj hmade)
    exact ⟨rfl, hfolder, hblocks, houtcome⟩

/-- The classes and writes of a plan cover the blocks of the document, in the
    directory that the plan has resolved. The statements about runs use plans
    through this. -/
theorem covers_of_plan {view : Files.View}
    (h : Split.plan view options document = .ok (some plan)) :
    plan.document = document ∧ outputDir view options document = .ok plan.outputDir ∧
      Block.locate options.settings.receiver document.text ≠ [] ∧
      Outcome.Covers view (contextFor options document) plan.outputDir
        (Block.locate options.settings.receiver document.text) ⟨plan.classes, plan.writes⟩ := by
  obtain ⟨hdocument, hfolder, hblocks, houtcome⟩ := planBlocks_of_plan h
  exact ⟨hdocument, hfolder, hblocks, covers_of_planBlocks houtcome⟩

/-- A plan has classes, for there is none for a document without blocks. So a
    report without classes tells that nothing was planned. -/
theorem classes_ne_nil_of_plan {view : Files.View}
    (h : Split.plan view options document = .ok (some plan)) :
    plan.classes ≠ [] := by
  obtain ⟨-, -, hblocks, hcovers⟩ := covers_of_plan h
  exact List.ne_nil_of_length_pos (hcovers.length ▸ List.length_pos_iff.2 hblocks)

/-- The output directory of a plan is absolute: a relative one that is asked
    for is joined to the working directory, and by default it is that of the
    document, which is absolute. -/
theorem isAbsolute_outputDir (hload : Document.load files.view source = .ok document)
    (h : outputDir files.view options document = .ok folder) : folder.isAbsolute = true := by
  unfold outputDir at h
  split at h
  · rw [← Except.ok.inj h]
    exact Document.isAbsolute_folder hload
  · split at h
    · next path habsolute =>
      rw [← Except.ok.inj h]
      exact Path.isAbsolute_absolute? files.isAbsolute_workingPath habsolute
    · exact absurd h (by simp)

/-- Every file of a plan has an absolute path, as its name is joined to the
    output directory. -/
theorem isAbsolute_of_mem_writes (hload : Document.load files.view source = .ok document)
    (hplan : Split.plan files.view options document = .ok (some plan))
    (hmem : write ∈ plan.writes) :
    write.path.isAbsolute = true := by
  obtain ⟨-, hfolder, -, hcovers⟩ := covers_of_plan hplan
  obtain ⟨-, block, -, hpath⟩ := hcovers.origin write hmem
  rw [hpath]
  exact ConfigurationClass.isAbsolute_pathFor (isAbsolute_outputDir hload hfolder) _ _

end

end Split

end EntitySplit
