import EntitySplit.Backup.Name
import EntitySplit.Backup.Stamp
import EntitySplit.Proofs.Path.Place

namespace EntitySplit

namespace Moment

/-- A number is written in digits only, whether it fills its places or not. -/
theorem isDigit_of_mem_padded {width number : Nat} {c : Char} (h : c ∈ padded width number) :
    c.isDigit = true := by
  rcases List.mem_append.1 h with hzero | hdigit
  · rw [List.eq_of_mem_replicate hzero]
    rfl
  · exact Nat.isDigit_of_mem_toDigits (by decide) (by decide) hdigit

theorem slash_not_mem_padded (width number : Nat) : '/' ∉ padded width number := by
  intro hmem
  exact absurd (isDigit_of_mem_padded hmem) (by decide)

/-- No stamp has a slash, not even one of a year with a sign, so a stamp never
    adds a folder to a path. -/
theorem slash_not_mem_stamp (moment : Moment) : '/' ∉ moment.stamp := by
  have hyear : '/' ∉ yearText moment.year := by
    unfold yearText
    split
    · simp [slash_not_mem_padded]
    · split <;> simp [slash_not_mem_padded]
  simp [stamp, hyear, slash_not_mem_padded]

end Moment

namespace Backup

section

variable {path other : Path} {name stamp : Text}

theorem isAbsolute_pathFor (habs : path.isAbsolute = true) (stamp : Text) :
    (pathFor path stamp).isAbsolute = true :=
  Path.isAbsolute_withFileName habs _

/-- What a backup adds to the name of the file: a dot, the stamp and the
    extension. -/
def ending (stamp : Text) : Text :=
  '.' :: stamp ++ ".bak".toList

/-- A name with the ending of a backup is a name, and neither `.` nor `..`,
    whatever stands in front. -/
theorem component?_append_ending (name stamp : Text) :
    Path.component? (name ++ ending stamp) = some (.name (name ++ ending stamp)) := by
  have hlong : 5 ≤ (name ++ ending stamp).length := by
    simp [ending]
    omega
  refine Path.component?_eq_name_iff.2 ⟨?_, ?_, ?_, rfl⟩
  all_goals
    intro heq
    rw [heq] at hlong
    simp at hlong

theorem slash_not_mem_append_ending (hname : path.fileName? = some name) (hstamp : '/' ∉ stamp) :
    '/' ∉ name ++ ending stamp := by
  simp [ending, Path.slash_not_mem_of_fileName? hname, hstamp]

/-- For a path with a file name, the backup's path is the one with the ending
    behind that name. -/
theorem pathFor_eq_withFileName (hname : path.fileName? = some name) (stamp : Text) :
    pathFor path stamp = path.withFileName (name ++ ending stamp) := by
  rw [pathFor, hname, Option.getD_some, List.append_assoc]
  rfl

/-- A backup has its file's name with the ending behind it, and its file's
    folder. The stamp has to be without slashes, or its last part alone would
    be the name. -/
theorem fileName?_parent?_pathFor (hname : path.fileName? = some name) (hstamp : '/' ∉ stamp) :
    (pathFor path stamp).fileName? = some (name ++ ending stamp) ∧
      (pathFor path stamp).parent? = path.parent? := by
  rw [pathFor_eq_withFileName hname]
  exact Path.fileName?_parent?_withFileName (component?_append_ending name stamp)
    (slash_not_mem_append_ending hname hstamp) hname

/-- The components of a backup's path are those of the file's with the ending
    at the last one. -/
theorem components_pathFor {front : List Path.Component} (habs : path.isAbsolute = true)
    (h : path.components = front ++ [.name name]) (hstamp : '/' ∉ stamp) :
    (pathFor path stamp).components = front ++ [.name (name ++ ending stamp)] := by
  have hname := Path.fileName?_of_components habs h
  rw [pathFor_eq_withFileName hname]
  exact Path.components_withFileName habs h (component?_append_ending name stamp)
    (slash_not_mem_append_ending hname hstamp)

/-- A file has its backup in its own folder. The path is absolute, since only
    then is its place in the tree fixed without a working directory. -/
theorem exists_places (habs : path.isAbsolute = true) (hname : path.fileName? = some name)
    (hstamp : '/' ∉ stamp) :
    ∃ folder, path.place = folder ++ [name] ∧
      (pathFor path stamp).place = folder ++ [name ++ ending stamp] := by
  obtain ⟨parent, -, -, -, hcomponents⟩ := Path.exists_parent_of_fileName? habs hname
  exact ⟨_, Path.place_of_components hcomponents,
    Path.place_of_components (components_pathFor habs hcomponents hstamp)⟩

/-- A backup is never at the place of its file. -/
theorem place_pathFor_ne (habs : path.isAbsolute = true) (hname : path.fileName? = some name)
    (hstamp : '/' ∉ stamp) :
    (pathFor path stamp).place ≠ path.place := by
  obtain ⟨folder, hplace, hbackup⟩ := exists_places habs hname hstamp
  rw [hplace, hbackup]
  simp [ending]

end

end Backup

end EntitySplit
