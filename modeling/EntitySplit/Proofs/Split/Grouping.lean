import EntitySplit.Proofs.Split.Planned
import Mathlib.Data.List.Forall2

namespace EntitySplit

namespace Path

/-- The paths of a list each but once, two spellings of one path as the first
    of them. The files of a plan come in this order. -/
def firsts : List Path → List Path
  | [] => []
  | path :: rest => path :: (firsts rest).filter fun other => other.components ≠ path.components

/-- A path as the first in a list that equals it is spelled. An entity's file
    is read by this spelling, also where a later block spells it differently. -/
def firstSpelled (paths : List Path) (path : Path) : Path :=
  (paths.find? (·.components = path.components)).getD path

section

variable (paths more : List Path) (path : Path)

/-- One more path at the end of a list is a new one only if none of the earlier
    ones equals it. This is the step by which a plan adds the file of a class. -/
theorem firsts_concat :
    firsts (paths ++ [path]) =
      firsts paths ++ if (firsts paths).any (·.components = path.components) then []
        else [path] := by
  induction paths with
  | nil => rfl
  | cons head rest ih =>
    rw [List.cons_append, firsts, ih, List.filter_append, firsts, List.cons_append, List.any_cons,
      List.any_filter]
    by_cases hhead : head.components = path.components
    · simp [hhead, apply_ite]
    · have hkept : (fun other : Path => decide (other.components ≠ head.components) &&
          decide (other.components = path.components)) = fun other =>
            decide (other.components = path.components) := by
        grind
      simp only [hkept, hhead, decide_false, Bool.false_or]
      split <;> simp [Ne.symm hhead]

/-- To look a path up among the first spellings is to look it up in the whole
    list, because the first that equals it is never left out. -/
theorem find?_firsts :
    (firsts paths).find? (·.components = path.components) =
      paths.find? (·.components = path.components) := by
  induction paths with
  | nil => rfl
  | cons head rest ih =>
    by_cases hhead : head.components = path.components
    · simp [firsts, hhead]
    · rw [firsts, List.find?_cons_of_neg (by simpa using hhead),
        List.find?_cons_of_neg (by simpa using hhead), ← ih, List.find?_filter]
      exact congrArg (List.find? · (firsts rest)) (funext fun other => by grind)

/-- What comes after a path in a list makes no difference to how it is first
    spelled. So a block can be judged by all paths of the document, or only by
    those up to its own. -/
theorem firstSpelled_append_cons :
    firstSpelled (paths ++ path :: more) path = firstSpelled paths path := by
  unfold firstSpelled
  rw [List.find?_append, List.find?_cons_of_pos (by simp)]
  cases paths.find? (·.components = path.components) <;> rfl

end

end Path

namespace Split

open ConfigurationClass

/-- Why the text of an entity's file cannot be had, if so: it is no file, or it
    cannot be read as text. The failure names the path as given. -/
def targetFailure? (view : Files.View) (typeName : Text) (path : Path) : Option Failure :=
  if (view.probe path).isFile then
    match (view.probe path).text with
    | .ok _ => none
    | .error cause => some (.read path cause)
  else
    some (.missingTarget typeName path)

/-- The classes that go into the file at a path, in the order of their blocks.
    Paths are compared by their components. -/
def classesAt (path : Path) (classes : List ConfigurationClass) : List ConfigurationClass :=
  classes.filter (·.path.components = path.components)

/-- What has been planned for blocks: a class for each, and the files that the
    classes make when they are grouped by their paths. A file of its own holds
    the last class alone, an entity's file holds all of them behind what it
    held before. -/
structure Outcome.Groups (view : Files.View) (context : Context) (folder : Path)
    (blocks : List Block) (outcome : Outcome) : Prop where
  made : List.Forall₂ (MadeFor context folder) blocks outcome.classes
  nodup : (outcome.writes.map (·.path.components)).Nodup
  paths : outcome.writes.map (·.path) = Path.firsts (outcome.classes.map (·.path))
  standalone : context.settings.embed = false → ∀ write ∈ outcome.writes,
    ((classesAt write.path outcome.classes).getLast?.map (·.contents)) = some write.contents
  embedded : context.settings.embed = true → ∀ write ∈ outcome.writes,
    ∃ existing, view.probe write.path = .file (.text existing) ∧
      write.contents = (classesAt write.path outcome.classes).foldl (appendClass context) existing

section

variable {view : Files.View} {context : Context} {folder path : Path} {outcome outcome' : Outcome}
  {block : Block} {blocks done : List Block} {made : ConfigurationClass}
  {classes : List ConfigurationClass} {failure : Failure} {typeName text : Text}

/-- What stands among the writes after one more class: the files of other
    paths, with the classes that they had, and the file of the class, with one
    class more. That the paths are distinct is needed, as only the first file
    at a path is replaced. -/
theorem mem_writes_add {write : PlannedWrite}
    (hnodup : (outcome.writes.map (·.path.components)).Nodup)
    (h : write ∈ (outcome.add made text).writes) :
    (write ∈ outcome.writes ∧
      classesAt write.path (outcome.classes ++ [made]) = classesAt write.path outcome.classes) ∨
      (write.contents = text ∧
        classesAt write.path (outcome.classes ++ [made]) =
          classesAt write.path outcome.classes ++ [made] ∧
        ((∃ old, outcome.writes.find? (·.isTo made.path) = some old ∧ write.path = old.path) ∨
          (outcome.writes.find? (·.isTo made.path) = none ∧ write.path = made.path))) := by
  rcases mem_putWrite hnodup h with ⟨hold, hother⟩ | ⟨old, hfind, rfl⟩ | ⟨hnone, rfl⟩
  · have hne : made.path.components ≠ write.path.components :=
      fun hsame => Bool.eq_false_iff.1 hother (PlannedWrite.isTo_iff.2 hsame.symm)
    exact .inl ⟨hold, by simp [classesAt, hne]⟩
  · have hto := List.find?_some hfind
    exact .inr ⟨rfl, by simp [classesAt, (PlannedWrite.isTo_iff.1 hto).symm],
      .inl ⟨old, hfind, rfl⟩⟩
  · exact .inr ⟨rfl, by simp [classesAt], .inr ⟨hnone, rfl⟩⟩

/-- The classes of a plan lie at the paths that their blocks ask for. This
    turns what is said of the classes into what is said of the blocks. -/
theorem map_path_of_madeFor (h : List.Forall₂ (MadeFor context folder) blocks classes) :
    classes.map (·.path) = blocks.map (pathFor context.settings folder) := by
  induction h with
  | nil => rfl
  | cons hmade _ ih => rw [List.map_cons, List.map_cons, hmade.path, ih]

/-- An entity's file for which something is planned already has the planned
    text, and the file itself is not read again. So a second class comes behind
    the first. -/
theorem targetText_of_planned {write : PlannedWrite}
    (h : outcome.writes.find? (·.isTo path) = some write) :
    targetText view outcome typeName path = .ok write.contents := by
  rw [targetText, h]

/-- An entity's file for which nothing is planned yet is read, or there is a
    failure. Both cases are told by the files alone, without what has been
    planned for other paths. -/
theorem targetText_of_unplanned (view : Files.View) (typeName : Text)
    (h : outcome.writes.find? (·.isTo path) = none) :
    (∃ text, view.probe path = .file (.text text) ∧
      targetText view outcome typeName path = .ok text ∧
        targetFailure? view typeName path = none) ∨
      ∃ failure, targetText view outcome typeName path = .error failure ∧
        targetFailure? view typeName path = some failure := by
  rw [targetText, h, targetFailure?]
  cases view.probe path with
  | file data =>
    cases data with
    | text text => exact .inl ⟨text, rfl, rfl, rfl⟩
    | binary bytes => exact .inr ⟨_, rfl, rfl⟩
  | directory => exact .inr ⟨_, rfl, rfl⟩
  | missing cause => exact .inr ⟨_, rfl, rfl⟩

/-- Where nothing has been planned the groups are those of no blocks. The runs
    of `addBlock` below start here. -/
theorem Outcome.groups_nil : ({} : Outcome).Groups view context folder [] where
  made := .nil
  nodup := List.nodup_nil
  paths := rfl
  standalone _ _ hmem := absurd hmem List.not_mem_nil
  embedded _ _ hmem := absurd hmem List.not_mem_nil

namespace Outcome.Groups

variable (hgroups : outcome.Groups view context folder done)

include hgroups

/-- The file planned for a path is that of the first block whose class goes
    there. It keeps the spelling of that block's path. -/
theorem find?_isTo (path : Path) :
    (outcome.writes.find? (·.isTo path)).map (·.path) =
      (done.map (pathFor context.settings folder)).find? (·.components = path.components) := by
  rw [← map_path_of_madeFor hgroups.made, ← Path.find?_firsts, ← hgroups.paths, List.find?_map]
  rfl

/-- A path for which no file is planned has no class. Together with
    `mem_writes_add` this fixes what a new file holds. -/
theorem classesAt_eq_nil (h : outcome.writes.find? (·.isTo path) = none) :
    classesAt path outcome.classes = [] := by
  have hnone := hgroups.find?_isTo path
  rw [h, ← map_path_of_madeFor hgroups.made, Option.map_none, eq_comm, List.find?_eq_none] at hnone
  exact List.filter_eq_nil_iff.2 fun made hmem => hnone _ (List.mem_map_of_mem hmem)

/-- One more block keeps the groups: its class is appended to an entity's file,
    or takes the place of what was planned for its own file. The groups so far
    are the only premise besides success. -/
theorem addBlock (h : addBlock view context folder outcome block = .ok outcome') :
    outcome'.Groups view context folder (done ++ [block]) := by
  obtain ⟨made, contents, rfl, hmade, hstandalone, hembedded⟩ := exists_of_addBlock h
  constructor
  · exact List.rel_append hgroups.made (.cons hmade .nil)
  · exact nodup_components_putWrite hgroups.nodup
  · rw [Outcome.add, List.map_append, List.map_singleton, Path.firsts_concat, map_path_putWrite,
      ← hgroups.paths, List.any_map]
    rfl
  · intro hmode write hmem
    rcases mem_writes_add hgroups.nodup hmem with ⟨hold, hclasses⟩ | ⟨hcontents, hclasses, -⟩
    · rw [Outcome.add, hclasses]
      exact hgroups.standalone hmode write hold
    · rw [Outcome.add, hclasses, List.getLast?_concat, hcontents, hstandalone hmode]
      rfl
  · intro hmode write hmem
    obtain ⟨existing, htext, happended⟩ := hembedded hmode
    rcases mem_writes_add hgroups.nodup hmem with ⟨hold, hclasses⟩ |
      ⟨hcontents, hclasses, ⟨old, hfind, hpath⟩ | ⟨hnone, hpath⟩⟩
    · rw [Outcome.add, hclasses]
      exact hgroups.embedded hmode write hold
    · -- The text that the class is appended to is the one planned so far.
      obtain ⟨text, hprobe, hold⟩ := hgroups.embedded hmode old (List.mem_of_find?_eq_some hfind)
      rw [targetText_of_planned hfind] at htext
      refine ⟨text, hpath ▸ hprobe, ?_⟩
      rw [Outcome.add, hclasses, List.foldl_concat, hpath, ← hold, Except.ok.inj htext, hcontents,
        happended]
    · rcases targetText_of_unplanned view block.content.typeName hnone with
        ⟨text, hprobe, hread, -⟩ |
        ⟨failure, hfailed, -⟩
      · obtain rfl := Except.ok.inj (hread.symm.trans htext)
        refine ⟨text, hpath ▸ hprobe, ?_⟩
        rw [Outcome.add, hclasses, hpath, hgroups.classesAt_eq_nil hnone, hcontents, happended]
        rfl
      · exact absurd (hfailed.symm.trans htext) (by simp)

/-- Any number of blocks keep the groups, by induction on the blocks with
    `addBlock` for each of them. -/
theorem foldlM (h : blocks.foldlM (Split.addBlock view context folder) outcome = .ok outcome') :
    outcome'.Groups view context folder (done ++ blocks) :=
  foldlM_addBlock (fun _ _ _ _ hgroups => hgroups.addBlock) hgroups h

/-- An entity's file cannot be had if it cannot be read by its path as first
    spelled. Once a class is planned for it, it can be had whatever the later
    spellings lead to. -/
theorem targetText_eq_error_iff (hmode : context.settings.embed = true) :
    targetText view outcome typeName path = .error failure ↔
      targetFailure? view typeName
        (Path.firstSpelled (done.map (pathFor context.settings folder)) path) = some failure := by
  rw [Path.firstSpelled, ← hgroups.find?_isTo path]
  cases hfind : outcome.writes.find? (·.isTo path) with
  | none =>
    rw [Option.map_none, Option.getD_none]
    rcases targetText_of_unplanned view typeName hfind with
      ⟨text, -, hread, hnone⟩ | ⟨cause, hfailed, hcause⟩
    · simp [hread, hnone]
    · simp [hfailed, hcause]
  | some write =>
    obtain ⟨text, hprobe, -⟩ := hgroups.embedded hmode write (List.mem_of_find?_eq_some hfind)
    rw [targetText_of_planned hfind, Option.map_some, Option.getD_some, targetFailure?, hprobe]
    simp [Files.Probe.isFile, Files.Probe.text]

/-- A block makes planning fail only where classes go into their entities'
    files, and only through the file of its entity. What is said of classes in
    files of their own never fails. -/
theorem addBlock_eq_error_iff :
    Split.addBlock view context folder outcome block = .error failure ↔
      context.settings.embed = true ∧
        targetFailure? view block.content.typeName
          (Path.firstSpelled (done.map (pathFor context.settings folder))
            (pathFor context.settings folder block)) =
            some failure := by
  by_cases hmode : context.settings.embed = true
  · rw [and_iff_right hmode, ← hgroups.targetText_eq_error_iff hmode, Split.addBlock, if_pos hmode]
    dsimp only
    rw [show pathFor context.settings folder block =
      entityPath context.settings folder block from if_pos hmode]
    cases targetText view outcome block.content.typeName
      (entityPath context.settings folder block) <;>
      simp [Except.map]
  · simp [Split.addBlock, hmode]

/-- Planning fails at the first block whose entity's file cannot be read. The
    failure is that block's, and blocks behind it are not looked at. -/
theorem foldlM_eq_error_iff :
    blocks.foldlM (Split.addBlock view context folder) outcome = .error failure ↔
      context.settings.embed = true ∧
        blocks.findSome? (fun block => targetFailure? view block.content.typeName
          (Path.firstSpelled ((done ++ blocks).map (pathFor context.settings folder))
            (pathFor context.settings folder block))) = some failure := by
  induction blocks generalizing outcome done with
  | nil => simp [pure, Except.pure]
  | cons block blocks ih =>
    rw [List.foldlM_cons, List.findSome?_cons, List.map_append, List.map_cons,
      Path.firstSpelled_append_cons]
    cases hblock : Split.addBlock view context folder outcome block with
    | error cause =>
      obtain ⟨hmode, hcause⟩ := hgroups.addBlock_eq_error_iff.1 hblock
      rw [hcause]
      simp [bind, Except.bind, hmode]
    | ok next =>
      have hnext := ih (hgroups.addBlock hblock)
      rw [← List.append_cons, List.map_append, List.map_cons] at hnext
      refine hnext.trans (and_congr_right fun hmode => ?_)
      have hnone : targetFailure? view block.content.typeName
          (Path.firstSpelled (done.map (pathFor context.settings folder))
            (pathFor context.settings folder block)) =
            none := by
        by_contra hsome
        obtain ⟨cause, hcause⟩ := Option.ne_none_iff_exists'.1 hsome
        exact absurd (hblock.symm.trans (hgroups.addBlock_eq_error_iff.2 ⟨hmode, hcause⟩)) (by simp)
      rw [hnone]

end Outcome.Groups

/-- Planning groups blocks by the files of their classes: what is planned is a
    class for each block and a file for each path, and it fails as the first
    block does whose entity's file is missing or cannot be read. Two spellings
    of one path are one path, which is looked up as first spelled. The
    settings, the folder and the files that planning looks into are arbitrary. -/
theorem planBlocks_groups (view : Files.View) (context : Context) (folder : Path)
    (blocks : List Block) :
    (∀ outcome, planBlocks view context folder blocks = .ok outcome →
      outcome.Groups view context folder blocks) ∧
    ∀ failure, planBlocks view context folder blocks = .error failure ↔
      context.settings.embed = true ∧
        blocks.findSome? (fun block => targetFailure? view block.content.typeName
          (Path.firstSpelled (blocks.map (entityPath context.settings folder))
            (entityPath context.settings folder block))) = some failure := by
  constructor
  · intro outcome h
    exact Outcome.groups_nil.foldlM h
  · intro failure
    refine Outcome.groups_nil.foldlM_eq_error_iff.trans (and_congr_right fun hmode => ?_)
    have hpath : pathFor context.settings folder = entityPath context.settings folder :=
      funext fun block => if_pos hmode
    rw [List.nil_append, hpath]

/-- What classes have in common that go into the files of their entities: no
    directives and no namespace, so that an empty class body is all that is
    appended. -/
def embeddingContext : Context where
  settings := { receiver := ['m'], extraUsings := [], embed := true }
  usings := []
  documentNamespace := []
  classNamespace := []
  lineEnding := ['\n']

/-- One entity's file. A block for any other entity makes planning fail. -/
def entityView : Files.View :=
  Files.view ⟨[(["A.cs".toList], .file (.text "class A;\n".toList))], []⟩

/-- Two types of one simple name share a file, which is planned once and holds
    both classes; where the second type has no file, planning fails with the
    failure of that block. -/
theorem planBlocks_groups_shared_file :
    (∃ outcome, planBlocks entityView embeddingContext ⟨['/']⟩
          (Block.locate
            ['m'] "m.Entity<A>(a => \x7b \x7d); m.Entity<N.A>(a => \x7b \x7d);".toList) =
            .ok outcome ∧
        outcome.classes.length = 2 ∧ outcome.writes.map (·.path) = [⟨"/A.cs".toList⟩] ∧
        outcome.Groups entityView embeddingContext ⟨['/']⟩
          (Block.locate
            ['m'] "m.Entity<A>(a => \x7b \x7d); m.Entity<N.A>(a => \x7b \x7d);".toList)) ∧
      planBlocks entityView embeddingContext ⟨['/']⟩
          (Block.locate ['m'] "m.Entity<A>(a => \x7b \x7d); m.Entity<B>(b => \x7b \x7d);".toList) =
        .error (.missingTarget ['B'] ⟨"/B.cs".toList⟩) := by
  have hplanned : (planBlocks entityView embeddingContext ⟨['/']⟩
      (Block.locate ['m'] "m.Entity<A>(a => \x7b \x7d); m.Entity<N.A>(a => \x7b \x7d);".toList)).map
        (fun outcome => (outcome.classes.length, outcome.writes.map (·.path))) =
          .ok (2, [⟨"/A.cs".toList⟩]) := by
    decide +kernel
  refine ⟨?_, ((planBlocks_groups _ _ _ _).2 _).2 ⟨rfl, by decide +kernel⟩⟩
  cases h : planBlocks entityView embeddingContext ⟨['/']⟩
      (Block.locate ['m'] "m.Entity<A>(a => \x7b \x7d); m.Entity<N.A>(a => \x7b \x7d);".toList) with
  | error failure => exact absurd (h ▸ hplanned) (by simp [Except.map])
  | ok outcome =>
    rw [h] at hplanned
    obtain ⟨hclasses, hpaths⟩ := Prod.mk.inj (Except.ok.inj hplanned)
    exact ⟨outcome, rfl, hclasses, hpaths, (planBlocks_groups _ _ _ _).1 outcome h⟩

end

end Split

end EntitySplit
