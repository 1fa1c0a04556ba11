import EntitySplit.Path.Basic

namespace EntitySplit

namespace Path

/-- How a path begins is settled before its first slash, or by it if that comes
    first. What is put behind a slash does not change it. -/
theorem cutLead_append_slash {t : Text} (ht : t ≠ []) (rest : Text) :
    cutLead (t ++ '/' :: rest) = ((cutLead t).1, (cutLead t).2 ++ '/' :: rest) := by
  fun_cases cutLead t with
  | case1 t => rfl
  | case2 => rfl
  | case3 t => rfl
  | case4 t hroot hhere hslash =>
    obtain ⟨c, t, rfl⟩ := List.exists_cons_of_ne_nil ht
    rw [cutLead]
    · simpa using hroot
    · simp
    · cases t with
      | nil => simpa using hhere
      | cons d t => simpa using hslash

theorem cutLead_lead (t : Text) : cutLead (cutLead t).1 = ((cutLead t).1, []) := by
  fun_cases cutLead t <;> rfl

theorem cutLead_of_not_mem {t : Text} (hslash : '/' ∉ t) (hhere : t ≠ ['.']) :
    cutLead t = ([], t) := by
  fun_cases cutLead t with
  | case1 t => simp at hslash
  | case2 => exact absurd rfl hhere
  | case3 t => simp at hslash
  | case4 => rfl

/-- What follows the beginning of a path can be cut off at any of its slashes. -/
theorem cutLead_of_cut {t front rest : Text} (h : (cutLead t).2 = front ++ '/' :: rest)
    (hfront : front ≠ []) :
    cutLead ((cutLead t).1 ++ front) = ((cutLead t).1, front) := by
  have hcut := cutLead_append_slash (List.append_ne_nil_of_right_ne_nil (cutLead t).1 hfront) rest
  rw [List.append_assoc, ← h, cutLead_append] at hcut
  have hlead : (cutLead ((cutLead t).1 ++ front)).1 = (cutLead t).1 := (congrArg Prod.fst hcut).symm
  have hbody := cutLead_append ((cutLead t).1 ++ front)
  rw [hlead, List.append_cancel_left_eq] at hbody
  exact Prod.ext hlead hbody

/-- A piece stands for a name if it is not empty and neither `.` nor `..`. -/
theorem component?_eq_name_iff {piece name : Text} :
    component? piece = some (.name name) ↔ piece ≠ [] ∧ piece ≠ ['.'] ∧ piece ≠ ['.', '.'] ∧
      piece = name := by
  grind [component?]

theorem eq_name_of_component? {piece : Text} {component : Component}
    (h : component? piece = some component)
    (hup : piece ≠ ['.', '.']) : component = .name piece := by
  grind [component?]

theorem slash_not_mem_lastPiece (body : Text) : '/' ∉ (lastPiece body).1 := by
  intro hmem
  have hslash := List.all_eq_true.1 List.all_takeWhile _ hmem
  simp at hslash

theorem lastPiece_of_not_mem {piece : Text} (h : '/' ∉ piece) : lastPiece piece = (piece, []) := by
  have hrun : ∀ c ∈ piece, (c != '/') = true :=
    fun c hmem => bne_iff_ne.2 (ne_of_mem_of_not_mem hmem h)
  have hend : ∀ c ∈ ([] : Text).head?, (c != '/') = false := by simp
  rw [← List.append_nil piece, lastPiece, Text.takeWhile_run_append hrun hend,
    Text.dropWhile_run_append hrun hend, List.append_nil, List.drop_nil]

theorem lastPiece_append {piece : Text} (h : '/' ∉ piece) (body : Text) :
    lastPiece (piece ++ '/' :: body) = (piece, body) := by
  have hrun : ∀ c ∈ piece, (c != '/') = true :=
    fun c hmem => bne_iff_ne.2 (ne_of_mem_of_not_mem hmem h)
  have hrest : ∀ c ∈ ('/' :: body).head?, (c != '/') = false := by simp
  rw [lastPiece, Text.takeWhile_run_append hrun hrest, Text.dropWhile_run_append hrun hrest,
    List.drop_one, List.tail_cons]

/-- The last piece is all there is, or stands behind a slash. -/
theorem lastPiece_cases (body : Text) : lastPiece body = (body, []) ∨
    body = (lastPiece body).1 ++ '/' :: (lastPiece body).2 := by
  by_cases hslash : '/' ∈ body
  · obtain ⟨piece, rest, hbody, hpiece⟩ := List.eq_append_cons_of_mem hslash
    rw [hbody, lastPiece_append hpiece]
    exact .inr rfl
  · exact .inl (lastPiece_of_not_mem hslash)

theorem dropIdle_nil : dropIdle [] = [] := by
  rw [dropIdle]

/-- Without the pieces that say nothing, a text ends with one that does. -/
theorem component?_of_dropIdle {body : Text} {c : Char} {rest : Text}
    (h : dropIdle body = c :: rest) :
    component? (lastPiece (c :: rest)).1.reverse ≠ none := by
  fun_induction dropIdle body with
  | case1 => exact absurd h (by simp)
  | case2 _ _ _ ih => exact ih h
  | case3 c' body hidle =>
    rw [h] at hidle
    simpa using hidle

/-- A text that ends with a piece that says something loses none. -/
theorem dropIdle_of_component? {body : Text} (h : component? (lastPiece body).1.reverse ≠ none) :
    dropIdle body = body := by
  cases body with
  | nil => exact dropIdle_nil
  | cons c body => rw [dropIdle, if_neg (by simpa using h)]

theorem dropIdle_dropIdle (body : Text) : dropIdle (dropIdle body) = dropIdle body := by
  cases hbody : dropIdle body with
  | nil => exact dropIdle_nil
  | cons c rest => exact dropIdle_of_component? (component?_of_dropIdle hbody)

/-- What is left is a part of the text; as it is kept backward, the part is a
    suffix. -/
theorem dropIdle_suffix (body : Text) : dropIdle body <:+ body := by
  fun_induction dropIdle body with
  | case1 => exact List.suffix_rfl
  | case2 c body hidle ih => exact ih.trans ((List.drop_suffix _ _).trans (List.dropWhile_suffix _))
  | case3 => exact List.suffix_rfl

/-- What says nothing is cut off at a slash, so no piece is cut in two. -/
theorem slash_dropIdle_suffix {body : Text} (h : dropIdle body ≠ []) :
    '/' :: dropIdle body <:+ '/' :: body := by
  fun_induction dropIdle body with
  | case1 => exact absurd rfl h
  | case2 c body hidle ih =>
    rcases lastPiece_cases (c :: body) with hpiece | hbody
    · rw [hpiece, dropIdle_nil] at h
      exact absurd rfl h
    · have hcut : '/' :: (lastPiece (c :: body)).2 <:+ c :: body := ⟨_, hbody.symm⟩
      exact (ih h).trans (hcut.trans (List.suffix_cons _ _))
  | case3 => exact List.suffix_rfl

section

variable {path folder parent : Path} {name old front : Text}

/-- What follows the beginning of a path, its last character first. -/
def backward (path : Path) : Text :=
  (cutLead path.raw).2.reverse

/-- That a path ends in a name, but for pieces that say nothing, and that
    `front` is what is before the name and the slash in front of it, its last
    character first. -/
structure EndsIn (path : Path) (front name : Text) : Prop where
  component : component? name = some (.name name)
  lastPiece : lastPiece (dropIdle path.backward) = (name.reverse, front)

theorem EndsIn.slash_not_mem (h : path.EndsIn front name) : '/' ∉ name := by
  have hslash := slash_not_mem_lastPiece (dropIdle path.backward)
  rw [h.lastPiece] at hslash
  simpa using hslash

theorem EndsIn.dropIdle_ne_nil (h : path.EndsIn front name) : dropIdle path.backward ≠ [] := by
  intro hnil
  have hpiece := h.lastPiece
  rw [hnil, lastPiece_of_not_mem List.not_mem_nil, Prod.mk.injEq] at hpiece
  obtain ⟨hempty, -⟩ := component?_eq_name_iff.1 h.component
  exact hempty (List.reverse_eq_nil_iff.1 hpiece.1.symm)

/-- A path has a file name exactly if it ends in it. From here on the name and
    the folder are told from `front`, and not from the scan itself. -/
theorem fileName?_eq_some_iff : path.fileName? = some name ↔ ∃ front, path.EndsIn front name := by
  unfold fileName?
  split
  · next hnil => simpa using fun front (h : path.EndsIn front name) => h.dropIdle_ne_nil hnil
  · next c rest hbody =>
    obtain ⟨component, hcomponent⟩ := Option.ne_none_iff_exists'.1 (component?_of_dropIdle hbody)
    dsimp only
    constructor
    · intro h
      split at h
      · exact absurd h (by simp)
      · next hup =>
        have hname := Option.some.inj h
        rw [eq_name_of_component? hcomponent hup, hname] at hcomponent
        refine ⟨(lastPiece (c :: rest)).2, hcomponent, ?_⟩
        rw [backward, hbody, ← hname, List.reverse_reverse]
    · rintro ⟨front, hends⟩
      obtain ⟨-, -, hup, -⟩ := component?_eq_name_iff.1 hends.component
      have hpiece := hends.lastPiece
      rw [backward, hbody] at hpiece
      rw [hpiece, List.reverse_reverse, if_neg hup]

/-- The folder is what is in front of the name, with the same beginning and
    without the pieces there that say nothing. -/
theorem EndsIn.parent?_eq_some (h : path.EndsIn front name) :
    path.parent? = some ⟨(cutLead path.raw).1 ++ (dropIdle front).reverse⟩ := by
  unfold parent?
  dsimp only
  split
  · next hnil => exact absurd hnil h.dropIdle_ne_nil
  · next c rest hbody =>
    have hpiece := h.lastPiece
    rw [backward, hbody] at hpiece
    rw [hpiece]

/-- The folder begins like the path, so it is absolute if the path is. -/
theorem EndsIn.cutLead_folder (h : path.EndsIn front name) :
    cutLead ((cutLead path.raw).1 ++ (dropIdle front).reverse) =
      ((cutLead path.raw).1, (dropIdle front).reverse) := by
  by_cases hempty : dropIdle front = []
  · rw [hempty, List.reverse_nil, List.append_nil, cutLead_lead]
  · have hfront : Path.lastPiece (dropIdle path.backward) ≠ (dropIdle path.backward, []) := by
      intro heq
      rw [h.lastPiece, Prod.mk.injEq] at heq
      exact hempty (heq.2 ▸ dropIdle_nil)
    have hslash := (lastPiece_cases _).resolve_left hfront
    rw [h.lastPiece] at hslash
    -- Backwards, a slash stands in front of the folder, and what says nothing and the name in front
    -- of that.
    obtain ⟨idle, hidle⟩ : '/' :: dropIdle front <:+ path.backward :=
      (slash_dropIdle_suffix hempty).trans
        (List.IsSuffix.trans ⟨_, hslash.symm⟩ (dropIdle_suffix path.backward))
    have hcut : (cutLead path.raw).2 = (dropIdle front).reverse ++ '/' :: idle.reverse := by
      rw [← List.reverse_reverse (cutLead path.raw).2, ← backward, ← hidle]
      simp
    exact cutLead_of_cut hcut (by simpa using hempty)

theorem slash_not_mem_of_fileName? (h : path.fileName? = some name) : '/' ∉ name := by
  obtain ⟨front, hends⟩ := fileName?_eq_some_iff.1 h
  exact hends.slash_not_mem

/-- That a path ends in a piece that says something, or is a beginning alone.
    Folders found by `parent?` are like this, and joining a name to one is
    undone by taking it off. -/
def IsTrimmed (path : Path) : Prop :=
  dropIdle path.backward = path.backward

/-- A path with a file name has a folder, and it is trimmed. -/
theorem exists_parent_isTrimmed (h : path.fileName? = some name) :
    ∃ parent, path.parent? = some parent ∧ parent.IsTrimmed := by
  obtain ⟨front, hends⟩ := fileName?_eq_some_iff.1 h
  refine ⟨_, hends.parent?_eq_some, ?_⟩
  rw [IsTrimmed, backward, hends.cutLead_folder, List.reverse_reverse, dropIdle_dropIdle]

theorem isAbsolute_of_not_mem (h : '/' ∉ name) : (⟨name⟩ : Path).isAbsolute = false := by
  cases name with
  | nil => rfl
  | cons c name => simpa [isAbsolute] using fun heq : c = '/' => h (by simp [heq])

/-- A path as it stands in front of what is joined to it: with a slash, unless
    it is empty or has one at its end. -/
def asFolder (path : Path) : Text :=
  if path.raw = [] ∨ path.raw.getLast? = some '/' then path.raw else path.raw ++ ['/']

theorem raw_join {other : Path} (h : other.isAbsolute = false) :
    (folder.join other).raw = folder.asFolder ++ other.raw := by
  rw [join, if_neg (by simp [h]), asFolder]
  split
  · rfl
  · rw [List.append_assoc, List.singleton_append]

theorem IsTrimmed.raw_eq (htrim : folder.IsTrimmed) (hends : folder.raw.getLast? = some '/') :
    folder.raw = ['/'] := by
  have hraw := cutLead_append folder.raw
  cases hbody : folder.backward with
  | nil =>
    rw [List.reverse_eq_nil_iff.1 hbody, List.append_nil] at hraw
    rw [← hraw] at hends ⊢
    revert hends
    fun_cases cutLead folder.raw <;> simp
  | cons c body =>
    have hlast : c = '/' := by
      rw [← hraw, ← List.reverse_reverse (cutLead folder.raw).2, ← backward, hbody] at hends
      simpa using hends
    rw [IsTrimmed, hbody] at htrim
    exact absurd (by rw [hlast]; rfl) (component?_of_dropIdle htrim)

/-- A name that is joined to a folder is what the path then ends in, and the
    folder is in front of it. The name may not be a dot, which could become the
    beginning of a path. -/
theorem lastPiece_join (htrim : folder.IsTrimmed) (hslash : '/' ∉ name) (hhere : name ≠ ['.']) :
    (cutLead (folder.join ⟨name⟩).raw).1 = (cutLead folder.raw).1 ∧
      lastPiece (folder.join ⟨name⟩).backward = (name.reverse, folder.backward) := by
  have hpiece : '/' ∉ name.reverse := by simpa using hslash
  rw [backward, raw_join (isAbsolute_of_not_mem hslash), asFolder, backward]
  by_cases hempty : folder.raw = []
  · rw [if_pos (.inl hempty), hempty, List.nil_append, cutLead_of_not_mem hslash hhere]
    exact ⟨rfl, lastPiece_of_not_mem hpiece⟩
  · split
    · next hends =>
      rw [htrim.raw_eq (hends.resolve_left hempty)]
      exact ⟨rfl, lastPiece_of_not_mem hpiece⟩
    · rw [List.append_assoc, List.singleton_append, cutLead_append_slash hempty]
      refine ⟨rfl, ?_⟩
      simpa using lastPiece_append hpiece (cutLead folder.raw).2.reverse

/-- Giving a path another file name is joining that name to its folder. -/
theorem withFileName_eq_join (hold : path.fileName? = some old)
    (hparent : path.parent? = some parent) (name : Text) :
    path.withFileName name = parent.join ⟨name⟩ := by
  rw [withFileName, hold, hparent]
  rfl

section

variable (hname : component? name = some (.name name)) (hslash : '/' ∉ name)

include hname hslash

/-- A name joined to a folder is the file name, and the folder the parent, to
    the character. The folder has to be trimmed, or the parent would be without
    the pieces that say nothing. -/
theorem fileName?_parent?_join (htrim : folder.IsTrimmed) :
    (folder.join ⟨name⟩).fileName? = some name ∧ (folder.join ⟨name⟩).parent? = some folder := by
  obtain ⟨-, hhere, -⟩ := component?_eq_name_iff.1 hname
  obtain ⟨hlead, hpiece⟩ := lastPiece_join htrim hslash hhere
  have hkept : dropIdle (folder.join ⟨name⟩).backward = (folder.join ⟨name⟩).backward :=
    dropIdle_of_component? (by simp [hpiece, hname])
  have hends : (folder.join ⟨name⟩).EndsIn folder.backward name := ⟨hname, by rw [hkept, hpiece]⟩
  refine ⟨fileName?_eq_some_iff.2 ⟨_, hends⟩, ?_⟩
  rw [hends.parent?_eq_some, hlead, htrim, backward, List.reverse_reverse, cutLead_append]

/-- A path with another file name has that name and the same folder. -/
theorem fileName?_parent?_withFileName (hold : path.fileName? = some old) :
    (path.withFileName name).fileName? = some name ∧
      (path.withFileName name).parent? = path.parent? := by
  obtain ⟨parent, hparent, htrim⟩ := exists_parent_isTrimmed hold
  rw [withFileName_eq_join hold hparent, hparent]
  exact fileName?_parent?_join hname hslash htrim

end

/-- What stands in front of the file name does not depend on the name, so paths
    of names in one folder are in the order of the names. -/
theorem exists_raw_withFileName (path : Path) :
    ∃ lead, ∀ name, '/' ∉ name → (path.withFileName name).raw = lead ++ name :=
  ⟨_, fun _ hslash => raw_join (isAbsolute_of_not_mem hslash)⟩

end

end Path

end EntitySplit
