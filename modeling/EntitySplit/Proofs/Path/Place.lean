import EntitySplit.Files.Basic
import EntitySplit.Path.Absolute
import EntitySplit.Proofs.Path.Name

namespace EntitySplit

namespace Path

/-- The place that a component leads to from another. -/
def Component.follow (here : Files.Place) : Component → Files.Place
  | .root => []
  | .here => here
  | .up => here.dropLast
  | .name text => here ++ [text]

/-- The place that an absolute path names. A tree of files has no links, so the
    components of a path alone tell where it leads, if it leads anywhere. -/
def place (path : Path) : Files.Place :=
  path.components.foldl Component.follow []

/-- The components that the pieces of a text between its slashes stand for.
    Empty pieces and dots stand for none. -/
def pieces (t : Text) : List Component :=
  (t.splitOn '/').filterMap component?

theorem pieces_nil : pieces [] = [] :=
  rfl

/-- Pieces on the two sides of a slash do not affect each other. -/
theorem pieces_append (s t : Text) : pieces (s ++ '/' :: t) = pieces s ++ pieces t := by
  rw [pieces, List.splitOn_append_cons_self, List.filterMap_append]
  rfl

theorem pieces_slash (t : Text) : pieces ('/' :: t) = pieces t :=
  pieces_append [] t

theorem pieces_of_not_mem {t : Text} (h : '/' ∉ t) : pieces t = (component? t).toList := by
  rw [pieces, List.splitOn_eq_singleton h]
  cases hcomponent : component? t with
  | none => rw [List.filterMap_cons_none hcomponent, List.filterMap_nil, Option.toList_none]
  | some component =>
    rw [List.filterMap_cons_some hcomponent, List.filterMap_nil, Option.toList_some]

section

variable {path other : Path}

theorem exists_raw_of_isAbsolute (habs : path.isAbsolute = true) :
    ∃ body, path.raw = '/' :: body := by
  have hhead : path.raw.head? = some '/' := by simpa [isAbsolute] using habs
  exact List.head?_eq_some_iff.1 hhead

/-- An absolute path is the root and its pieces, whatever slashes it begins
    with. -/
theorem components_of_isAbsolute (habs : path.isAbsolute = true) :
    path.components = .root :: pieces path.raw := by
  obtain ⟨body, hraw⟩ := exists_raw_of_isAbsolute habs
  rw [components, hraw, pieces_slash]
  rfl

theorem exists_lastPiece (habs : path.isAbsolute = true) :
    ∃ before last, path.raw = before ++ '/' :: last ∧ '/' ∉ last := by
  obtain ⟨body, hraw⟩ := exists_raw_of_isAbsolute habs
  have hslash : '/' ∈ path.raw.reverse := by simp [hraw]
  obtain ⟨last, before, hreverse, hlast⟩ := List.eq_append_cons_of_mem hslash
  refine ⟨before.reverse, last.reverse, ?_, by simpa using hlast⟩
  rw [← List.reverse_reverse path.raw, hreverse]
  simp

theorem isAbsolute_join (habs : path.isAbsolute = true) : (path.join other).isAbsolute = true := by
  obtain ⟨body, hraw⟩ := exists_raw_of_isAbsolute habs
  unfold join
  split
  · assumption
  · split <;> simp [isAbsolute, hraw]

/-- Joining puts the pieces of the other path behind the components. The other
    may not be absolute, in which case it takes the place of all. -/
theorem components_join (habs : path.isAbsolute = true) (hother : other.isAbsolute = false) :
    (path.join other).components = path.components ++ pieces other.raw := by
  have hpieces : pieces (path.join other).raw = pieces path.raw ++ pieces other.raw := by
    obtain ⟨body, hraw⟩ := exists_raw_of_isAbsolute habs
    rw [raw_join hother, asFolder]
    split
    · next hends =>
      have hlast : path.raw.getLast? = some '/' := hends.resolve_left (by simp [hraw])
      obtain ⟨before, hbefore⟩ := List.getLast?_eq_some_iff.1 hlast
      rw [hbefore, List.append_assoc, List.singleton_append, pieces_append, pieces_append,
        pieces_nil, List.append_nil]
    · rw [List.append_assoc, List.singleton_append, pieces_append]
  rw [components_of_isAbsolute (isAbsolute_join habs), components_of_isAbsolute habs, hpieces,
    List.cons_append]

/-- A path made absolute is absolute, given that the working directory is. -/
theorem isAbsolute_absolute? {workingDirectory full : Path}
    (hworking : workingDirectory.isAbsolute = true)
    (h : path.absolute? workingDirectory = some full) : full.isAbsolute = true := by
  have hfold (steps : List Path) {base : Path} (hbase : base.isAbsolute = true) :
      (steps.foldl join base).isAbsolute = true := by
    induction steps generalizing base with
    | nil => exact hbase
    | cons step steps ih => exact ih (isAbsolute_join hbase)
  have hroot : (⟨rootText path.raw⟩ : Path).isAbsolute = true := by
    unfold rootText
    split <;> rfl
  have hbase :
    (if path.isAbsolute then ⟨rootText path.raw⟩ else workingDirectory).isAbsolute = true := by
    split
    · exact hroot
    · exact hworking
  unfold absolute? at h
  split at h
  · exact absurd h (by simp)
  · dsimp only at h
    split at h
    · rw [← Option.some.inj h]
      exact isAbsolute_join (hfold _ hbase)
    · rw [← Option.some.inj h]
      exact hfold _ hbase

end

/-- The pieces of a text are those up to its last slash and the one behind it. -/
theorem pieces_lastPiece (body : Text) :
    pieces body.reverse =
      pieces (lastPiece body).2.reverse ++ (component? (lastPiece body).1.reverse).toList := by
  have hpiece : '/' ∉ (lastPiece body).1.reverse := by simpa using slash_not_mem_lastPiece body
  rw [← pieces_of_not_mem hpiece]
  rcases lastPiece_cases body with hall | hbody
  · rw [hall, List.reverse_nil, pieces_nil, List.nil_append]
  · have hreverse := congrArg List.reverse hbody
    rw [List.reverse_append, List.reverse_cons, List.append_assoc, List.singleton_append]
      at hreverse
    rw [hreverse, pieces_append]

/-- Pieces that say nothing stand for no components. -/
theorem pieces_dropIdle (body : Text) : pieces (dropIdle body).reverse = pieces body.reverse := by
  fun_induction dropIdle body with
  | case1 => rfl
  | case2 c body hidle ih =>
    have hnone : component? (lastPiece (c :: body)).1.reverse = none :=
      Option.isNone_iff_eq_none.1 hidle
    rw [ih, pieces_lastPiece (c :: body), hnone, Option.toList_none, List.append_nil]
  | case3 => rfl

section

variable {path : Path} {name : Text}

/-- The components of a path are those of its beginning and of the pieces
    behind it, for relative paths as well. -/
theorem components_eq (path : Path) :
    path.components = leadComponents (cutLead path.raw).1 ++ pieces (cutLead path.raw).2 :=
  rfl

/-- A path with a file name is its folder and that name. -/
theorem components_of_parent? {parent : Path} (h : path.fileName? = some name)
    (hparent : path.parent? = some parent) :
    path.components = parent.components ++ [.name name] := by
  obtain ⟨front, hends⟩ := fileName?_eq_some_iff.1 h
  have hbody : pieces (cutLead path.raw).2 = pieces front.reverse ++ [.name name] := by
    rw [← List.reverse_reverse (cutLead path.raw).2, ← backward, ← pieces_dropIdle,
      pieces_lastPiece, hends.lastPiece, List.reverse_reverse, hends.component, Option.toList_some]
  obtain rfl := Option.some.inj (hparent.symm.trans hends.parent?_eq_some)
  rw [components_eq, components_eq, hends.cutLead_folder, hbody, pieces_dropIdle, List.append_assoc]

/-- An absolute path with a file name has an absolute folder, and the name is
    its last component. -/
theorem exists_parent_of_fileName? (habs : path.isAbsolute = true)
    (h : path.fileName? = some name) :
    ∃ parent, path.parent? = some parent ∧ parent.isAbsolute = true ∧ '/' ∉ name ∧
      path.components = parent.components ++ [.name name] := by
  obtain ⟨body, hraw⟩ := exists_raw_of_isAbsolute habs
  obtain ⟨front, hends⟩ := fileName?_eq_some_iff.1 h
  have hparent := hends.parent?_eq_some
  refine ⟨_, hparent, ?_, hends.slash_not_mem, components_of_parent? h hparent⟩
  rw [hraw]
  rfl

/-- The file name is the last component, however many slashes and dots stand
    behind it. -/
theorem fileName?_of_components {front : List Component} (habs : path.isAbsolute = true)
    (h : path.components = front ++ [.name name]) : path.fileName? = some name := by
  obtain ⟨body, hraw⟩ := exists_raw_of_isAbsolute habs
  have hlead : cutLead path.raw = (['/'], body) := by rw [hraw, cutLead]
  have hpieces : pieces path.raw = pieces (dropIdle body.reverse).reverse := by
    rw [hraw, pieces_slash, pieces_dropIdle, List.reverse_reverse]
  rw [components_of_isAbsolute habs, hpieces] at h
  rw [fileName?, hlead]
  dsimp only
  split
  · next hnone =>
    rw [hnone, List.reverse_nil, pieces_nil] at h
    cases front with
    | nil => simp at h
    | cons component front => simp at h
  · next c rest hbody =>
    obtain ⟨component, hcomponent⟩ := Option.ne_none_iff_exists'.1 (component?_of_dropIdle hbody)
    rw [hbody, pieces_lastPiece, hcomponent, Option.toList_some, ← List.cons_append] at h
    have hlast : component = .name name := by simpa using (List.append_inj_right' h rfl)
    rw [hlast] at hcomponent
    obtain ⟨-, -, hup, hname⟩ := component?_eq_name_iff.1 hcomponent
    rw [if_neg hup, hname]

theorem isAbsolute_withFileName (habs : path.isAbsolute = true) (name : Text) :
    (path.withFileName name).isAbsolute = true := by
  have hfolder :
    (if path.fileName?.isSome then path.parent?.getD ⟨[]⟩ else path).isAbsolute = true := by
    split
    · next hsome =>
      obtain ⟨old, hold⟩ := Option.isSome_iff_exists.1 hsome
      obtain ⟨parent, hparent, hparentAbs, -⟩ := exists_parent_of_fileName? habs hold
      rwa [hparent, Option.getD_some]
    · exact habs
  exact isAbsolute_join hfolder

/-- A name in a folder is one component more. -/
theorem components_join_name (habs : path.isAbsolute = true)
    (hname : component? name = some (.name name))
    (hslash : '/' ∉ name) : (path.join ⟨name⟩).components = path.components ++ [.name name] := by
  rw [components_join habs (isAbsolute_of_not_mem hslash), pieces_of_not_mem hslash, hname,
    Option.toList_some]

/-- Another file name takes the place of the last component, and the others
    stay. -/
theorem components_withFileName {front : List Component} {old : Text}
    (habs : path.isAbsolute = true) (h : path.components = front ++ [.name old])
    (hname : component? name = some (.name name)) (hslash : '/' ∉ name) :
    (path.withFileName name).components = front ++ [.name name] := by
  have hold := fileName?_of_components habs h
  obtain ⟨parent, hparent, hparentAbs, -, hcomponents⟩ := exists_parent_of_fileName? habs hold
  have hfront : parent.components = front := List.append_inj_left' (hcomponents.symm.trans h) rfl
  rw [withFileName_eq_join hold hparent, components_join_name hparentAbs hname hslash, hfront]

/-- A path that ends with a name names the place of that name in the place of
    what is in front. -/
theorem place_of_components {front : List Component} (h : path.components = front ++ [.name name]) :
    path.place = front.foldl Component.follow [] ++ [name] := by
  rw [place, h, List.foldl_append]
  rfl

theorem place_names (names : List Text) :
    (names.map Component.name).foldl Component.follow [] = names := by
  have hfollow (here : Files.Place) :
    (names.map Component.name).foldl Component.follow here = here ++ names := by
    induction names generalizing here with
    | nil => exact (List.append_nil here).symm
    | cons name names ih =>
      rw [List.map_cons, List.foldl_cons, ih]
      exact List.append_assoc here [name] names
  exact hfollow []

theorem exists_names_of_up_not_mem {components : List Component} (hup : .up ∉ components)
    (hpieces : ∀ component ∈ components, ∃ piece, component? piece = some component) :
    ∃ names : List Text, components = names.map Component.name := by
  induction components with
  | nil => exact ⟨[], rfl⟩
  | cons component components ih =>
    obtain ⟨hfirst, hrest⟩ := List.ne_and_not_mem_of_not_mem_cons hup
    obtain ⟨names, hnames⟩ := ih hrest fun other hmem => hpieces other (List.mem_cons_of_mem _ hmem)
    obtain ⟨piece, hpiece⟩ := hpieces component List.mem_cons_self
    have hname : component = .name piece := by grind [component?]
    exact ⟨piece :: names, by rw [hname, hnames, List.map_cons]⟩

/-- A path without `..` names the place of its components, so such paths differ
    in their components only if they name different places. -/
theorem components_of_up_not_mem (habs : path.isAbsolute = true) (hup : .up ∉ path.components) :
    path.components = .root :: path.place.map Component.name := by
  have hroot := components_of_isAbsolute habs
  have hpieces : .up ∉ pieces path.raw := by
    intro hmem
    rw [hroot] at hup
    exact hup (List.mem_cons_of_mem _ hmem)
  obtain ⟨names, hnames⟩ := exists_names_of_up_not_mem hpieces fun component hmem => by
    obtain ⟨piece, -, hpiece⟩ := List.mem_filterMap.1 hmem
    exact ⟨piece, hpiece⟩
  have hplace : path.place = names := by
    rw [place, hroot, hnames]
    exact place_names names
  rw [hroot, hnames, hplace]

end

end Path

/-- The path of the working directory is absolute, also that of the root. -/
theorem Files.isAbsolute_workingPath (files : Files) : files.workingPath.isAbsolute = true := by
  rw [Files.workingPath]
  cases files.workingDirectory with
  | nil => rfl
  | cons name names => rfl

end EntitySplit
