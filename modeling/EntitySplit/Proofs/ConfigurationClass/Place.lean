import EntitySplit.ConfigurationClass.Basic
import EntitySplit.Proofs.Path.Folder

namespace EntitySplit

namespace Block

/-- The entity's own name has no dot, being what stands behind the last one. -/
theorem Content.dot_not_mem_simpleName (content : Content) : '.' ∉ content.simpleName := by
  intro hmem
  rw [simpleName, List.mem_reverse] at hmem
  have hdot := List.all_eq_true.1 List.all_takeWhile _ hmem
  simp at hdot

end Block

namespace ConfigurationClass

section

variable {settings : Settings} {folder : Path} {block : Block} {name : Text}

/-- What begins with a name without dots is a name, no `.` or `..`, whatever
    follows it. An empty name would not do, as two dots may follow. -/
theorem component?_append_of_dot_not_mem (hname : name ≠ []) (hdot : '.' ∉ name) (rest : Text) :
    Path.component? (name ++ rest) = some (.name (name ++ rest)) := by
  cases name with
  | nil => exact absurd rfl hname
  | cons c name =>
    have hfirst : c ≠ '.' := fun heq => hdot (by simp [heq])
    simp [Path.component?, hfirst]

/-- Both files that a class can go into are right in the folder of the classes,
    under names without slashes. `hslash` is needed: a type argument is any
    text between angle brackets, and a comment in it stays in the name. The
    premises on the suffix and the extension are about the settings. -/
theorem paths_in_folder (habs : folder.isAbsolute = true) (hsuffix : '/' ∉ settings.suffix)
    (hextension : '/' ∉ settings.extension) (hnamed : block.content.simpleName ≠ [])
    (hslash : '/' ∉ block.content.simpleName) :
    Path.IsIn folder (nameFor settings block ++ '.' :: settings.extension)
      (standalonePath settings folder block) ∧
      Path.IsIn folder (block.content.simpleName ++ '.' :: settings.extension)
        (entityPath settings folder block) := by
  have hdot := block.content.dot_not_mem_simpleName
  constructor
  · refine Path.isIn_join habs ?_ (by simp [nameFor, hslash, hsuffix, hextension])
    rw [nameFor, List.append_assoc]
    exact component?_append_of_dot_not_mem hnamed hdot _
  · exact Path.isIn_join habs (component?_append_of_dot_not_mem hnamed hdot _)
      (by simp [hslash, hextension])

/-- A type with a namespace gives files named after its last part. -/
theorem paths_in_folder_qualified :
    ∃ block ∈ Block.locate ['m'] "m.Entity<Models.Order>(o => \x7b \x7d);".toList,
      block.content.simpleName = "Order".toList ∧
      Path.IsIn ⟨"/out".toList⟩ "OrderConfiguration.cs".toList
        (standalonePath {} ⟨"/out".toList⟩ block) ∧
      Path.IsIn ⟨"/out".toList⟩ "Order.cs".toList (entityPath {} ⟨"/out".toList⟩ block) := by
  obtain ⟨block, hmem, hname⟩ :
    ∃ block ∈ Block.locate ['m'] "m.Entity<Models.Order>(o => \x7b \x7d);".toList,
        block.content.simpleName = "Order".toList := by decide +kernel
  have hsuffix : '/' ∉ ({} : Settings).suffix := by decide
  have hextension : '/' ∉ ({} : Settings).extension := by decide
  have habs : Path.isAbsolute ⟨"/out".toList⟩ = true := rfl
  have hnamed : block.content.simpleName ≠ [] := by simp [hname]
  have hslash : '/' ∉ block.content.simpleName := by simp [hname]
  have hplaced := paths_in_folder habs hsuffix hextension hnamed hslash
  rw [nameFor, hname] at hplaced
  exact ⟨block, hmem, hname, hplaced⟩

/-- A comment before the type makes the name an absolute path, which takes the
    place of the folder when the two are joined. -/
theorem commented_type_leaves_folder :
    ∃ block ∈ Block.locate "modelBuilder".toList
        "modelBuilder.Entity</* sales */Order>(o => \x7b \x7d);".toList,
      standalonePath {} ⟨"/out".toList⟩ block = ⟨"/* sales */OrderConfiguration.cs".toList⟩ ∧
      entityPath {} ⟨"/out".toList⟩ block = ⟨"/* sales */Order.cs".toList⟩ ∧
      (standalonePath {} ⟨"/out".toList⟩ block).parent? = some ⟨"/* sales *".toList⟩ := by
  decide +kernel

end

end ConfigurationClass

end EntitySplit
