import EntitySplit.Proofs.Path.Place

namespace EntitySplit

namespace Path

/-- A path, its folder, the folder of that and so on. These are what making
    directories may add. -/
def ancestors (path : Path) : List Path :=
  match _hparent : path.parent? with
  | none => [path]
  | some parent => path :: parent.ancestors
termination_by path.raw.length
decreasing_by exact length_parent?_lt _hparent

section

variable {path parent other folder : Path} {name : Text}

theorem mem_ancestors_self (path : Path) : path ∈ path.ancestors := by
  unfold ancestors
  split <;> exact List.mem_cons_self

theorem ancestors_of_parent? (h : path.parent? = some parent) :
    path.ancestors = path :: parent.ancestors := by
  rw [ancestors]
  split
  · next hnone => exact absurd (h.symm.trans hnone) (by simp)
  · next above habove => rw [Option.some.inj (h.symm.trans habove)]

/-- The folder of an absolute path is absolute. -/
theorem isAbsolute_parent? (habs : path.isAbsolute = true) (h : path.parent? = some parent) :
    parent.isAbsolute = true := by
  obtain ⟨body, hraw⟩ := exists_raw_of_isAbsolute habs
  have hlead : cutLead path.raw = (['/'], body) := by rw [hraw, cutLead]
  unfold parent? at h
  rw [hlead] at h
  dsimp only at h
  split at h
  · exact absurd h (by simp)
  · rw [← Option.some.inj h]
    rfl

/-- All folders that an absolute path leads through are absolute. -/
theorem isAbsolute_of_mem_ancestors (habs : path.isAbsolute = true) (h : other ∈ path.ancestors) :
    other.isAbsolute = true := by
  fun_induction ancestors path with
  | case1 path hnone => rwa [List.mem_singleton.1 h]
  | case2 path parent hparent ih =>
    rcases List.mem_cons.1 h with rfl | hmem
    · exact habs
    · exact ih (isAbsolute_parent? habs hparent) hmem

/-- That a path is of a file with a name right in a folder. The folder in the
    path may be written otherwise, so its components are compared and not its
    text. -/
structure IsIn (folder : Path) (name : Text) (path : Path) : Prop where
  fileName : path.fileName? = some name
  parent : ∃ parent, path.parent? = some parent ∧ parent.components = folder.components
  place : path.place = folder.place ++ [name]

/-- A name that is not `.` or `..` and has no slash is that of a file right in
    the folder that it is joined to. One with a slash in front would leave the
    folder. -/
theorem isIn_join (habs : folder.isAbsolute = true) (hname : component? name = some (.name name))
    (hslash : '/' ∉ name) : IsIn folder name (folder.join ⟨name⟩) := by
  have hcomponents := components_join_name habs hname hslash
  have hfile := fileName?_of_components (isAbsolute_join habs) hcomponents
  obtain ⟨parent, hparent, -, -, hsplit⟩ := exists_parent_of_fileName? (isAbsolute_join habs) hfile
  refine ⟨hfile, ⟨parent, hparent, ?_⟩, place_of_components hcomponents⟩
  exact List.append_inj_left' (hsplit.symm.trans hcomponents) rfl

/-- That two paths are of different names in one folder. -/
structure IsSibling (path other : Path) : Prop where
  folder : ∃ folder, path.parent? = some folder ∧ other.parent? = some folder
  names : ∃ name name', path.fileName? = some name ∧ other.fileName? = some name' ∧ name ≠ name'
  components_ne : path.components ≠ other.components

/-- Two names in one folder make the paths different in their components as
    well. -/
theorem isSibling_of_parent?_eq {name' : Text} (hparent : path.parent? = other.parent?)
    (hname : path.fileName? = some name) (hname' : other.fileName? = some name')
    (hne : name ≠ name') :
    path.IsSibling other := by
  obtain ⟨folder, hfolder, -⟩ := exists_parent_isTrimmed hname
  refine ⟨⟨folder, hfolder, hparent ▸ hfolder⟩, ⟨name, name', hname, hname', hne⟩, ?_⟩
  rw [components_of_parent? hname hfolder, components_of_parent? hname' (hparent ▸ hfolder)]
  simpa using hne

end

end Path

end EntitySplit
