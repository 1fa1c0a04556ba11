import EntitySplit.Text.Blank
import EntitySplit.Text.Word

namespace EntitySplit

namespace Header

/-- The `using` directive at the beginning of a text, through its semicolon,
    and what follows it. White space has to follow the keyword, and anything
    may stand before the semicolon. -/
def directive? (t : Text) : Option (Text × Text) :=
  match Text.after? "using".toList t with
  | some (c :: rest) =>
    if Text.isBlank c then
      match rest.dropWhile (· != ';') with
      | _ :: after => some ("using".toList ++ c :: rest.takeWhile (· != ';') ++ [';'], after)
      | [] => none
    else
      none
  | _ => none

/-- A directive and what follows it are the text, and the directive is not
    empty, so cutting comes to an end. -/
theorem eq_append_of_directive? {t directive after : Text}
    (h : directive? t = some (directive, after)) :
    t = directive ++ after ∧ directive ≠ [] := by
  unfold directive? at h
  split at h
  · next c rest hafter =>
    split at h
    · split at h
      · next d tail hdrop =>
        simp only [Option.some.injEq, Prod.mk.injEq] at h
        obtain ⟨rfl, rfl⟩ := h
        have hd : d = ';' := by
          have := List.head?_dropWhile_not (· != ';') rest
          simpa [hdrop] using this
        have parts := List.takeWhile_append_dropWhile (p := (· != ';')) (l := rest)
        rw [hdrop, hd] at parts
        refine ⟨?_, by simp⟩
        rw [Text.eq_append_of_after? hafter]
        conv => lhs; rw [← parts]
        simp
      · simp at h
    · simp at h
  · simp at h

/-- Cuts a text at its `using` directives: each directive with the text before
    it, and the text after the last. `kept` is the text since the last
    directive, its last character first; `lineBegins` tells whether a line
    begins here. -/
def cutFrom (lineBegins : Bool) (kept : Text) : Text → List (Text × Text) × Text
  | [] => ([], kept.reverse)
  | c :: t =>
    match _hfound : if lineBegins then directive? (c :: t) else none with
    | some (directive, after) =>
      let rest := cutFrom false [] after
      ((kept.reverse, directive) :: rest.1, rest.2)
    | none => cutFrom (c = '\n') (c :: kept) t
termination_by t => t.length
decreasing_by
  · have hfound : directive? (c :: t) = some (directive, after) := by
      split at _hfound
      · exact _hfound
      · simp at _hfound
    obtain ⟨heq, hne⟩ := eq_append_of_directive? hfound
    rw [heq, List.length_append]
    have := List.length_pos_iff.2 hne
    omega
  · simp

/-- Cuts a text at its `using` directives. -/
def cut (t : Text) : List (Text × Text) × Text :=
  cutFrom true [] t

/-- The `using` directives of a text in their order, as they are written. -/
def usings (t : Text) : List Text :=
  (cut t).1.map (·.2)

/-- The text through its last `using` directive, and the text after it. None if
    it has no directive. -/
def splitAfterUsings? (t : Text) : Option (Text × Text) :=
  match cut t with
  | ([], _) => none
  | (pieces, tail) => some (pieces.flatMap fun (lead, directive) => lead ++ directive, tail)

/-- The name in the namespace declaration at the beginning of a text. Letters
    of ASCII, underscores and at signs may begin it, and dots may stand in it. -/
def declaredName? (t : Text) : Option Text :=
  match Text.after? "namespace".toList t with
  | some (c :: rest) =>
    if Text.isBlank c then
      match rest.dropWhile Text.isBlank with
      | first :: name =>
        if first.isAlpha || first = '_' || first = '@' then
          some (first :: name.takeWhile fun c => Text.isWord c || c = '.')
        else
          none
      | [] => none
    else
      none
  | _ => none

/-- The namespace that a text declares first, empty if there is none. The
    keyword stands at the beginning, after white space or after a semicolon, as
    `boundary` tells. -/
def namespaceFrom (boundary : Bool) : Text → Text
  | [] => []
  | c :: t =>
    match if boundary then declaredName? (c :: t) else none with
    | some name => name
    | none => namespaceFrom (Text.isBlank c || c = ';') t

/-- The namespace that a document declares first, empty if there is none. The
    text is searched as it is, comments and literals included. -/
def namespaceName (document : Text) : Text :=
  namespaceFrom true document

end Header

end EntitySplit
