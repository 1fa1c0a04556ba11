import EntitySplit.Files.Operation
import EntitySplit.Proofs.Files.Walk
import EntitySplit.Proofs.Path.Folder

namespace EntitySplit

namespace Files

/-- That a file has been written where a path leads: the path shows it, and
    nothing else has changed. What was a directory or a file elsewhere is so
    still, which keeps the meaning of all other paths. -/
structure Written (before after : Files) (path : Path) (data : Data) : Prop where
  grown : Extends before after
  kept (place : Place) (hne : place ≠ path.place) : after.lookup place = before.lookup place
  shown : after.probe path = .file data

section

variable {files after : Files} {path source : Path} {place : Place} {entry : Entry}
  {target : Target} {data : Data}

/-- What writing does if it succeeds: the path leads to a place where there is
    or can be a file, and the file is put there. -/
theorem exists_of_writeData (h : files.writeData path data = .ok after) :
    ∃ target place, resolve files path = .ok target ∧ target.filePlace? = some place ∧
      endsInSlash path = false ∧
      after = files.put place (.file data) := by
  unfold writeData at h
  split at h
  · exact absurd h (by simp)
  · next place old hresolve =>
    split_ifs at h with hslash
    exact ⟨_, place, hresolve, rfl, by simpa using hslash, (Except.ok.inj h).symm⟩
  · next place hresolve =>
    split_ifs at h with hslash
    exact ⟨_, place, hresolve, rfl, by simpa using hslash, (Except.ok.inj h).symm⟩
  · split_ifs at h
  · exact absurd h (by simp)

/-- A place at which there is a file, or can be one, is the one that the path
    names, and no directory's. The path has to be absolute, as others lead from
    the working directory. -/
theorem filePlace_of_resolve (habs : path.isAbsolute = true) (h : resolve files path = .ok target)
    (hplace : target.filePlace? = some place) :
    place = path.place ∧ place ≠ [] ∧ files.lookup place ≠ some .directory := by
  have hat := isAt_of_resolve habs h
  have hroot : files.lookup [] = some .directory := if_pos rfl
  cases target with
  | file there old =>
    obtain rfl := Option.some.inj hplace
    obtain ⟨rfl, hentry⟩ := hat
    exact ⟨rfl, by rintro hnil; simp [hnil, hroot] at hentry, by simp [hentry]⟩
  | vacant there =>
    obtain rfl := Option.some.inj hplace
    obtain ⟨rfl, hentry⟩ := hat
    exact ⟨rfl, by rintro hnil; simp [hnil, hroot] at hentry, by simp [hentry]⟩
  | directory there => exact absurd hplace (by simp [Target.filePlace?])
  | unnamable => exact absurd hplace (by simp [Target.filePlace?])

/-- Putting a file where no directory stands keeps directories directories and
    files files. -/
theorem extends_put (hne : place ≠ []) (hentry : files.lookup place ≠ some .directory) :
    Extends files (files.put place (.file data)) where
  directory other h := by
    have hother : other ≠ place := by
      rintro rfl
      exact hentry h
    rw [lookup_put_of_ne files hother, h]
  file other old h := by
    by_cases hother : other = place
    · exact ⟨data, by rw [hother, lookup_put_self files hne]⟩
    · exact ⟨old, by rw [lookup_put_of_ne files hother, h]⟩

/-- Writing that succeeds writes the file where the path leads, and changes
    nothing else. -/
theorem written_of_writeData (habs : path.isAbsolute = true)
    (h : files.writeData path data = .ok after) :
    Written files after path data := by
  obtain ⟨target, place, hresolve, hplace, hslash, rfl⟩ := exists_of_writeData h
  obtain ⟨rfl, hne, hentry⟩ := filePlace_of_resolve habs hresolve hplace
  have hgrown : Extends files (files.put path.place (.file data)) := extends_put hne hentry
  obtain ⟨hnull, hsize, hleads⟩ := (resolve_eq_ok_iff habs).1 hresolve
  have hlater := hleads.extend hgrown hplace (lookup_put_self files hne (.file data))
  refine ⟨hgrown, fun other hother => lookup_put_of_ne files hother _, ?_⟩
  exact probe_eq_file_iff.2 ⟨hslash, path.place, (resolve_eq_ok_iff habs).2 ⟨hnull, hsize, hlater⟩⟩

/-- A copy holds what the source showed, and changes nothing else. The source
    need not be absolute. -/
theorem written_of_copy (habs : path.isAbsolute = true) (h : files.copy source path = .ok after) :
    ∃ data, files.probe source = .file data ∧ Written files after path data := by
  unfold copy at h
  split at h
  · next place data hfind => exact ⟨data, by rw [probe, hfind], written_of_writeData habs h⟩
  · exact absurd h (by simp)
  · exact absurd h (by simp)

/-- Making a directory changes no entry that there is: it is put where nothing
    was. -/
theorem lookup_of_makeDir (h : files.makeDir path = .ok after)
    (hentry : files.lookup place = some entry) :
    after.lookup place = some entry := by
  unfold makeDir at h
  split at h
  · next there hresolve =>
    obtain rfl := Except.ok.inj h
    have hne : place ≠ there := by
      rintro rfl
      rw [lookup_of_vacant hresolve] at hentry
      exact absurd hentry (by simp)
    rw [lookup_put_of_ne files hne, hentry]
  · exact absurd h (by simp)
  · exact absurd h (by simp)
  · exact absurd h (by simp)

/-- Making directories adds to what there is, also where it stops with a
    failure halfway. -/
theorem lookup_makeDirs (hentry : files.lookup place = some entry) :
    (files.makeDirs path).1.lookup place = some entry := by
  fun_induction makeDirs files path with
  | case1 => exact hentry
  | case2 path hpath made hmade => exact lookup_of_makeDir hmade hentry
  | case3 => exact hentry
  | case4 path hpath hmissing parent hparent above cause habove ih => rwa [habove] at ih
  | case5 path hpath hmissing parent hparent above habove made hmade ih =>
    rw [habove] at ih
    exact lookup_of_makeDir hmade ih
  | case6 path hpath hmissing parent hparent above habove cause hnot ih => rwa [habove] at ih
  | case7 => exact hentry

/-- Making a directory changes no place but its own. -/
theorem lookup_makeDir_of_ne (habs : path.isAbsolute = true) (h : files.makeDir path = .ok after)
    (hne : path.place ≠ place) : after.lookup place = files.lookup place := by
  unfold makeDir at h
  split at h
  · next there hresolve =>
    obtain rfl := Except.ok.inj h
    obtain ⟨rfl, -⟩ : there = path.place ∧ files.lookup path.place = none :=
      isAt_of_resolve habs hresolve
    exact lookup_put_of_ne files hne.symm .directory
  · exact absurd h (by simp)
  · exact absurd h (by simp)
  · exact absurd h (by simp)

/-- Making directories changes nothing but the path's own place and those of
    the folders above it, whether it succeeds or not. -/
theorem lookup_makeDirs_of_ne (habs : path.isAbsolute = true)
    (hne : ∀ other ∈ path.ancestors, other.place ≠ place) :
    (files.makeDirs path).1.lookup place = files.lookup place := by
  fun_induction makeDirs files path with
  | case1 => rfl
  | case2 path hpath made hmade =>
    exact lookup_makeDir_of_ne habs hmade (hne path path.mem_ancestors_self)
  | case3 => rfl
  | case4 path hpath hmissing parent hparent above cause hfailed ih =>
    rw [Path.ancestors_of_parent? hparent, List.forall_mem_cons] at hne
    rw [hfailed] at ih
    exact ih (Path.isAbsolute_parent? habs hparent) hne.2
  | case5 path hpath hmissing parent hparent above hdone made hmade ih =>
    rw [Path.ancestors_of_parent? hparent, List.forall_mem_cons] at hne
    rw [hdone] at ih
    rw [lookup_makeDir_of_ne habs hmade hne.1]
    exact ih (Path.isAbsolute_parent? habs hparent) hne.2
  | case6 path hpath hmissing parent hparent above hdone cause hfailed ih =>
    rw [Path.ancestors_of_parent? hparent, List.forall_mem_cons] at hne
    rw [hdone] at ih
    exact ih (Path.isAbsolute_parent? habs hparent) hne.2
  | case7 => rfl

/-- Making directories keeps directories directories and files files. -/
theorem extends_makeDirs (files : Files) (path : Path) : Extends files (files.makeDirs path).1 where
  directory _ h := lookup_makeDirs h
  file _ data h := ⟨data, lookup_makeDirs h⟩

end

end Files

end EntitySplit
