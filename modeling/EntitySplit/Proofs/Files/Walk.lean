import EntitySplit.Files.View
import EntitySplit.Proofs.Path.Place
import Mathlib.Tactic.SplitIfs

namespace EntitySplit

namespace Files

open EntitySplit.Path (component?)

/-- How the pieces of a path lead from a directory to a target: empty pieces
    and dots stay, two dots go up, and a name goes into a directory or ends at
    a file or at nothing. It is the walk without its failures, in a form for
    induction. -/
inductive Leads (files : Files) : Place → List Text → Target → Prop
  | arrived (here : Place) : Leads files here [] (.directory here)
  | idle {here : Place} {piece : Text} {rest : List Text} {target : Target}
      (hpiece : component? piece = none) (hrest : Leads files here rest target) :
      Leads files here (piece :: rest) target
  | up {here : Place} {piece : Text} {rest : List Text} {target : Target}
      (hpiece : component? piece = some .up) (hrest : Leads files here.dropLast rest target) :
      Leads files here (piece :: rest) target
  | into {here : Place} {piece : Text} {rest : List Text} {target : Target}
      (hpiece : component? piece = some (.name piece)) (hsize : ¬longestName < piece.size)
      (hentry : files.lookup (here ++ [piece]) = some .directory)
      (hrest : Leads files (here ++ [piece]) rest target) : Leads files here (piece :: rest) target
  | file {here : Place} {piece : Text} {rest : List Text} {data : Data}
      (hpiece : component? piece = some (.name piece)) (hsize : ¬longestName < piece.size)
      (hentry : files.lookup (here ++ [piece]) = some (.file data))
      (hrest : rest.all List.isEmpty = true) :
      Leads files here (piece :: rest) (.file (here ++ [piece]) data)
  | vacant {here : Place} {piece : Text} {rest : List Text}
      (hpiece : component? piece = some (.name piece)) (hsize : ¬longestName < piece.size)
      (hentry : files.lookup (here ++ [piece]) = none) (hrest : rest.all List.isEmpty = true) :
      Leads files here (piece :: rest) (.vacant (here ++ [piece]))
  | unnamable {here : Place} {piece : Text} {rest : List Text}
      (hpiece : component? piece = some (.name piece)) (hsize : longestName < piece.size)
      (hrest : rest.all List.isEmpty = true) : Leads files here (piece :: rest) .unnamable

section

variable {files after : Files} {here place : Place} {pieces : List Text} {target : Target}
  {data old : Data}

theorem leads_of_walk (h : walk files here pieces = .ok target) :
    Leads files here pieces target := by
  fun_induction walk files here pieces with
  | case1 here =>
    obtain rfl := Except.ok.inj h
    exact .arrived here
  | case2 here piece rest hidle ih => exact .idle (by simp [component?, hidle]) (ih h)
  | case3 here rest hidle ih => exact .up (by simp [component?]) (ih h)
  | case4 here piece rest hidle hup hsize hrest =>
    obtain rfl := Except.ok.inj h
    exact .unnamable (by simp [component?, hidle, hup]) hsize hrest
  | case6 here piece rest hidle hup hsize _ hentry ih =>
    exact .into (by simp [component?, hidle, hup]) hsize hentry (ih h)
  | case7 here piece rest hidle hup hsize _ data hentry hrest =>
    obtain rfl := Except.ok.inj h
    exact .file (by simp [component?, hidle, hup]) hsize hentry hrest
  | case9 here piece rest hidle hup hsize _ hentry hrest =>
    obtain rfl := Except.ok.inj h
    exact .vacant (by simp [component?, hidle, hup]) hsize hentry hrest
  | case5 => exact absurd h (by simp)
  | case8 => exact absurd h (by simp)
  | case10 => exact absurd h (by simp)

/-- A walk at a name, with the tests for pieces that are none already decided. -/
theorem walk_cons_name {piece : Text} {rest : List Text}
    (hpiece : component? piece = some (.name piece)) :
    walk files here (piece :: rest) =
      if longestName < piece.size then
        if rest.all List.isEmpty then .ok .unnamable else .error .nameTooLong
      else
        match files.lookup (here ++ [piece]) with
        | some .directory => walk files (here ++ [piece]) rest
        | some (.file data) =>
          if rest.all List.isEmpty then .ok (.file (here ++ [piece]) data) else .error .notDirectory
        | none =>
          if rest.all List.isEmpty then .ok (.vacant (here ++ [piece])) else .error .notFound := by
  obtain ⟨hempty, hdot, hup, -⟩ := Path.component?_eq_name_iff.1 hpiece
  rw [walk, if_neg (by simp [hempty, hdot])]
  exact if_neg hup

theorem walk_of_leads (h : Leads files here pieces target) :
    walk files here pieces = .ok target := by
  induction h with
  | arrived here => rfl
  | idle hpiece hrest ih =>
    rw [walk, if_pos (by grind [component?]), ih]
  | up hpiece hrest ih =>
    rw [walk, if_neg (by grind [component?]), if_pos (by grind [component?]), ih]
  | into hpiece hsize hentry hrest ih => rw [walk_cons_name hpiece, if_neg hsize, hentry, ih]
  | file hpiece hsize hentry hrest => simp [walk_cons_name hpiece, hsize, hentry, hrest]
  | vacant hpiece hsize hentry hrest => simp [walk_cons_name hpiece, hsize, hentry, hrest]
  | unnamable hpiece hsize hrest => simp [walk_cons_name hpiece, hsize, hrest]

/-- That a target is at a place, with what is found there. A name that is too
    long is nowhere, so of it nothing is said. -/
def Target.IsAt (files : Files) (place : Place) : Target → Prop
  | .file there data => there = place ∧ files.lookup place = some (.file data)
  | .directory there => there = place
  | .vacant there => there = place ∧ files.lookup place = none
  | .unnamable => True

/-- The place at which there is a file or can be one, if the target is such. -/
def Target.filePlace? : Target → Option Place
  | .file place _ => some place
  | .vacant place => some place
  | .directory _ => none
  | .unnamable => none

/-- Empty pieces stand for no components, so a slash at the end of a path adds
    nothing. -/
theorem filterMap_component?_of_all {rest : List Text} (h : rest.all List.isEmpty = true) :
    rest.filterMap component? = [] := by
  rw [List.filterMap_eq_nil_iff]
  intro piece hmem
  have hempty : piece = [] := List.isEmpty_iff.1 (List.all_eq_true.1 h piece hmem)
  simp [component?, hempty]

/-- A target is at the place that the components of the pieces name from where
    the walk began. There are no links in the tree, so going up is taking off a
    name. -/
theorem Leads.isAt (h : Leads files here pieces target) :
    target.IsAt files ((pieces.filterMap component?).foldl Path.Component.follow here) := by
  induction h with
  | arrived here => rfl
  | idle hpiece hrest ih => rwa [List.filterMap_cons_none hpiece]
  | up hpiece hrest ih => rwa [List.filterMap_cons_some hpiece]
  | into hpiece hsize hentry hrest ih => rwa [List.filterMap_cons_some hpiece]
  | file hpiece hsize hentry hrest =>
    rw [List.filterMap_cons_some hpiece, filterMap_component?_of_all hrest]
    exact ⟨rfl, hentry⟩
  | vacant hpiece hsize hentry hrest =>
    rw [List.filterMap_cons_some hpiece, filterMap_component?_of_all hrest]
    exact ⟨rfl, hentry⟩
  | unnamable => trivial

/-- The pieces that lead to a file end with its name, but for empty ones. -/
theorem Leads.exists_name (h : Leads files here pieces (.file place data)) :
    ∃ name rest, name :: rest <:+ pieces ∧ rest.all List.isEmpty = true ∧
      component? name = some (.name name) := by
  generalize htarget : Target.file place data = target at h
  induction h with
  | arrived here => exact absurd htarget (by simp)
  | idle _ _ ih =>
    obtain ⟨name, rest, hends, hname⟩ := ih htarget
    exact ⟨name, rest, hends.trans (List.suffix_cons _ _), hname⟩
  | up _ _ ih =>
    obtain ⟨name, rest, hends, hname⟩ := ih htarget
    exact ⟨name, rest, hends.trans (List.suffix_cons _ _), hname⟩
  | into _ _ _ _ ih =>
    obtain ⟨name, rest, hends, hname⟩ := ih htarget
    exact ⟨name, rest, hends.trans (List.suffix_cons _ _), hname⟩
  | @file _ piece rest _ hpiece _ _ hrest => exact ⟨piece, rest, List.suffix_rfl, hrest, hpiece⟩
  | vacant => exact absurd htarget (by simp)
  | unnamable => exact absurd htarget (by simp)

/-- That directories have stayed directories, and files files, with whatever
    contents. Entries may have been added. -/
structure Extends (before after : Files) : Prop where
  directory (place : Place) (h : before.lookup place = some .directory) :
    after.lookup place = some .directory
  file (place : Place) (data : Data) (h : before.lookup place = some (.file data)) :
    ∃ data, after.lookup place = some (.file data)

theorem Extends.refl (files : Files) : Extends files files :=
  ⟨fun _ h => h, fun _ data h => ⟨data, h⟩⟩

/-- Changes one after another keep directories and files if each of them does. -/
theorem Extends.trans {first second third : Files} (h : Extends first second)
    (h' : Extends second third) :
    Extends first third where
  directory place hentry := h'.directory place (h.directory place hentry)
  file place data hentry := by
    obtain ⟨data', hentry'⟩ := h.file place data hentry
    exact h'.file place data' hentry'

/-- What leads to a file, or to where one can be made, leads to the file that
    is there later. The directories on the way have stayed, by `hextends`. -/
theorem Leads.extend (hextends : Extends files after) (h : Leads files here pieces target)
    (hplace : target.filePlace? = some place) (hentry : after.lookup place = some (.file data)) :
    Leads after here pieces (.file place data) := by
  induction h with
  | arrived here => exact absurd hplace (by simp [Target.filePlace?])
  | idle hpiece hrest ih => exact .idle hpiece (ih hplace)
  | up hpiece hrest ih => exact .up hpiece (ih hplace)
  | into hpiece hsize hthere hrest ih =>
    exact .into hpiece hsize (hextends.directory _ hthere) (ih hplace)
  | file hpiece hsize hthere hrest =>
    obtain rfl := Option.some.inj hplace
    exact .file hpiece hsize hentry hrest
  | vacant hpiece hsize hthere hrest =>
    obtain rfl := Option.some.inj hplace
    exact .file hpiece hsize hentry hrest
  | unnamable => exact absurd hplace (by simp [Target.filePlace?])

end

section

variable {files after : Files} {path : Path} {target : Target} {data now : Data}

/-- What a path leads to, its pieces lead to from some directory. -/
theorem exists_leads_of_resolve (h : resolve files path = .ok target) :
    ∃ here, Leads files here (path.raw.splitOn '/') target := by
  unfold resolve at h
  split_ifs at h
  · exact ⟨_, leads_of_walk h⟩
  · exact ⟨_, leads_of_walk h⟩

theorem lookup_of_vacant {place : Place} (h : resolve files path = .ok (.vacant place)) :
    files.lookup place = none := by
  obtain ⟨here, hleads⟩ := exists_leads_of_resolve h
  obtain ⟨rfl, hentry⟩ := hleads.isAt
  exact hentry

/-- An absolute path leads to a target exactly if it is no longer than paths
    may be, has no null character, and its pieces lead there from the root. -/
theorem resolve_eq_ok_iff (habs : path.isAbsolute = true) :
    resolve files path = .ok target ↔
      '\x00' ∉ path.raw ∧ path.raw.size < longestPath ∧
        Leads files [] (path.raw.splitOn '/') target := by
  obtain ⟨body, hraw⟩ := Path.exists_raw_of_isAbsolute habs
  have hne : path.raw ≠ [] := by simp [hraw]
  unfold resolve
  rw [if_neg hne, if_pos habs]
  constructor
  · intro h
    split_ifs at h with hnull hsize
    exact ⟨hnull, Nat.lt_of_not_le hsize, leads_of_walk h⟩
  · rintro ⟨hnull, hsize, hleads⟩
    rw [if_neg hnull, if_neg (Nat.not_le_of_lt hsize), walk_of_leads hleads]

/-- What an absolute path leads to is at the place that the path names. -/
theorem isAt_of_resolve (habs : path.isAbsolute = true) (h : resolve files path = .ok target) :
    target.IsAt files path.place := by
  obtain ⟨-, -, hleads⟩ := (resolve_eq_ok_iff habs).1 h
  rw [Path.place, Path.components_of_isAbsolute habs]
  exact hleads.isAt

/-- A path shows a file if it leads to one and does not end with a slash. -/
theorem probe_eq_file_iff :
    files.probe path = .file data ↔ endsInSlash path = false ∧
      ∃ place, resolve files path = .ok (.file place data) := by
  unfold probe find
  cases resolve files path with
  | error cause => simp
  | ok target =>
    cases target with
    | file place there => cases hslash : endsInSlash path <;> simp
    | directory place => simp
    | vacant place => simp
    | unnamable => simp

/-- A file that a path shows is at the place that the path names, so two
    absolute paths of one place show the same file. -/
theorem lookup_place_of_probe (habs : path.isAbsolute = true) (h : files.probe path = .file data) :
    files.lookup path.place = some (.file data) := by
  obtain ⟨-, place, hresolve⟩ := probe_eq_file_iff.1 h
  exact (isAt_of_resolve habs hresolve).2

/-- A path that showed a file shows the file that is at its place now. The
    entries may have grown and the file may have changed in between, as they do
    in the course of a run. -/
theorem probe_of_extends (habs : path.isAbsolute = true) (hextends : Extends files after)
    (h : files.probe path = .file data) (hentry : after.lookup path.place = some (.file now)) :
    after.probe path = .file now := by
  obtain ⟨hslash, place, hresolve⟩ := probe_eq_file_iff.1 h
  obtain ⟨hnull, hsize, hleads⟩ := (resolve_eq_ok_iff habs).1 hresolve
  obtain ⟨rfl, -⟩ := isAt_of_resolve habs hresolve
  have hlater := hleads.extend hextends rfl hentry
  exact probe_eq_file_iff.2 ⟨hslash, path.place, (resolve_eq_ok_iff habs).2 ⟨hnull, hsize, hlater⟩⟩

/-- The path of a file ends with the file's name, to the character. -/
theorem exists_fileName_of_probe (habs : path.isAbsolute = true)
    (h : files.probe path = .file data) :
    ∃ name, path.fileName? = some name ∧ '/' ∉ name ∧ name <:+ path.raw := by
  obtain ⟨hslash, place, hresolve⟩ := probe_eq_file_iff.1 h
  obtain ⟨-, -, hleads⟩ := (resolve_eq_ok_iff habs).1 hresolve
  obtain ⟨name, rest, ⟨front, hpieces⟩, hrest, hname⟩ := hleads.exists_name
  obtain ⟨before, last, hraw, hlast⟩ := Path.exists_lastPiece habs
  have hnonempty : last ≠ [] := by
    rintro rfl
    simp [endsInSlash, hraw] at hslash
  have hcut : front ++ name :: rest = before.splitOn '/' ++ [last] := by
    rw [hpieces, hraw, List.splitOn_append_cons_self, List.splitOn_eq_singleton hlast]
  have hnone : rest = [] := by
    rcases List.eq_nil_or_concat rest with hnil | ⟨others, piece, rfl⟩
    · exact hnil
    · have hpiece : piece = last := by
        rw [List.concat_eq_append, ← List.cons_append, ← List.append_assoc] at hcut
        simpa using List.append_inj_right' hcut rfl
      have hempty := List.all_eq_true.1 hrest piece (by simp)
      exact absurd (hpiece ▸ List.isEmpty_iff.1 hempty) hnonempty
  subst hnone
  obtain ⟨-, hends⟩ := List.append_inj' hcut rfl
  obtain rfl : name = last := by simpa using hends
  refine ⟨name, ?_, hlast, ⟨before ++ ['/'], by rw [hraw]; simp⟩⟩
  have hcomponents : path.components = .root :: (front.filterMap component? ++ [.name name]) := by
    rw [Path.components_of_isAbsolute habs, Path.pieces, ← hpieces, List.filterMap_append,
      List.filterMap_cons_some hname, List.filterMap_nil]
  exact Path.fileName?_of_components habs (hcomponents.trans (List.cons_append ..).symm)

end

end Files

end EntitySplit
