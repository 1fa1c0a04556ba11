import EntitySplit.Text.Basic

namespace EntitySplit

/-- A path as written. Slashes separate its pieces; a doubled slash, a slash at
    the end and every `.` but a leading one say nothing, and two paths with the
    same components are the same path. -/
structure Path where
  raw : Text
  deriving DecidableEq, Repr

namespace Path

inductive Component where
  /-- The slash that a path from the root begins with. -/
  | root
  /-- A `.` that a relative path begins with. -/
  | here
  /-- A `..`. -/
  | up
  | name (text : Text)
  deriving DecidableEq, Repr

/-- Whether a path begins at the root. -/
def isAbsolute (path : Path) : Bool :=
  path.raw.head? = some '/'

/-- A path cut after its root or its leading `.`. A slash behind the `.` stays
    with what follows. -/
def cutLead : Text → Text × Text
  | '/' :: t => (['/'], t)
  | ['.'] => (['.'], [])
  | '.' :: '/' :: t => (['.'], '/' :: t)
  | t => ([], t)

/-- The component that a piece between two slashes stands for, if it says
    anything. -/
def component? (piece : Text) : Option Component :=
  if piece = [] ∨ piece = ['.'] then none
  else if piece = ['.', '.'] then some .up
  else some (.name piece)

def leadComponents (lead : Text) : List Component :=
  match lead with
  | [] => []
  | c :: _ => if c = '/' then [.root] else [.here]

/-- What a path says, piece by piece: its beginning and then the names and `..`
    between its slashes. -/
def components (path : Path) : List Component :=
  let (lead, body) := cutLead path.raw
  leadComponents lead ++ (body.splitOn '/').filterMap component?

/-- The piece after the last slash and what comes before that slash, each with
    its last character first. -/
def lastPiece (body : Text) : Text × Text :=
  (body.takeWhile (· != '/'), (body.dropWhile (· != '/')).drop 1)

theorem length_lastPiece_lt (c : Char) (body : Text) :
    (lastPiece (c :: body)).2.length < (c :: body).length := by
  have parts :=
    congrArg List.length (List.takeWhile_append_dropWhile (p := (· != '/')) (l := c :: body))
  simp only [List.length_append] at parts
  simp only [lastPiece, List.length_drop, List.length_cons] at parts ⊢
  omega

/-- Drops the pieces at the end that say nothing, with the slashes before them.
    The last character comes first. -/
def dropIdle : Text → Text
  | [] => []
  | c :: body =>
    if (component? (lastPiece (c :: body)).1.reverse).isNone then dropIdle (lastPiece (c :: body)).2
    else c :: body
termination_by body => body.length
decreasing_by exact length_lastPiece_lt c body

theorem length_dropIdle_le (body : Text) : (dropIdle body).length ≤ body.length := by
  fun_induction dropIdle body with
  | case1 => simp
  | case2 c body hidle ih =>
    have := length_lastPiece_lt c body
    omega
  | case3 => simp

/-- The path without its last component; a root and an empty path have none to
    lose. -/
def parent? (path : Path) : Option Path :=
  let (lead, body) := cutLead path.raw
  match dropIdle body.reverse with
  | [] => if lead = ['.'] then some ⟨[]⟩ else none
  | c :: rest => some ⟨lead ++ (dropIdle (lastPiece (c :: rest)).2).reverse⟩

/-- The last component if it is a name. -/
def fileName? (path : Path) : Option Text :=
  match dropIdle (cutLead path.raw).2.reverse with
  | [] => none
  | c :: rest =>
    let piece := (lastPiece (c :: rest)).1.reverse
    if piece = ['.', '.'] then none else some piece

/-- `other` as seen from `path`. An absolute path is the same from everywhere. -/
def join (path other : Path) : Path :=
  if other.isAbsolute then other
  else if path.raw = [] ∨ path.raw.getLast? = some '/' then ⟨path.raw ++ other.raw⟩
  else ⟨path.raw ++ '/' :: other.raw⟩

/-- The path with another file name; one without a file name gets it appended. -/
def withFileName (path : Path) (name : Text) : Path :=
  let folder := if (fileName? path).isSome then (parent? path).getD ⟨[]⟩ else path
  folder.join ⟨name⟩

theorem cutLead_append (t : Text) : (cutLead t).1 ++ (cutLead t).2 = t := by
  unfold cutLead
  split <;> simp

/-- A path is longer than its folder, so going up comes to an end. -/
theorem length_parent?_lt {path parent : Path} (h : parent? path = some parent) :
    parent.raw.length < path.raw.length := by
  have parts := congrArg List.length (cutLead_append path.raw)
  simp only [List.length_append] at parts
  unfold parent? at h
  dsimp only at h
  split at h
  · split at h
    · next hlead =>
      simp only [Option.some.injEq] at h
      subst h
      rw [hlead] at parts
      simp only [List.length_cons, List.length_nil] at parts ⊢
      omega
    · simp at h
  · next c rest hbody =>
    simp only [Option.some.injEq] at h
    subst h
    have hle := length_dropIdle_le (cutLead path.raw).2.reverse
    have hlt := length_lastPiece_lt c rest
    have hle' := length_dropIdle_le (lastPiece (c :: rest)).2
    rw [hbody] at hle
    simp only [List.length_reverse, List.length_append] at *
    omega

end Path

end EntitySplit
