import EntitySplit.Files.Cause
import EntitySplit.Path.Basic

namespace EntitySplit

namespace Files

/-- The contents of a file: text, or bytes that are the UTF-8 form of none. -/
inductive Data where
  | text (text : Text)
  | binary (bytes : List UInt8)
  deriving DecidableEq, Repr

/-- What bytes hold. -/
def Data.ofBytes (bytes : ByteArray) : Data :=
  match String.fromUTF8? bytes with
  | some s => .text s.toList
  | none => .binary bytes.toList

inductive Entry where
  | file (data : Data)
  | directory
  deriving DecidableEq, Repr

/-- A place in the tree: the names that lead to it from the root. -/
abbrev Place := List Text

end Files

open Files

/-- A tree of files: entries by their places, and the place from which relative
    paths lead. The root is a directory and needs no entry. -/
structure Files where
  entries : List (Place × Entry)
  workingDirectory : Place
  deriving DecidableEq, Repr

namespace Files

/-- What is at a place. -/
def lookup (files : Files) (place : Place) : Option Entry :=
  if place = [] then some .directory else files.entries.lookup place

/-- Puts an entry in its place, at the end if there was none. Every other entry
    stays where it is. -/
def putEntry (place : Place) (entry : Entry) : List (Place × Entry) → List (Place × Entry)
  | [] => [(place, entry)]
  | (other, old) :: rest =>
    if other = place then (place, entry) :: rest else (other, old) :: putEntry place entry rest

def put (files : Files) (place : Place) (entry : Entry) : Files :=
  { files with entries := putEntry place entry files.entries }

/-- Takes away what is at a place and below it. -/
def remove (files : Files) (place : Place) : Files :=
  { files with entries := files.entries.filter fun (other, _) => !place.isPrefixOf other }

/-- The path of the working directory. -/
def workingPath (files : Files) : Path :=
  match files.workingDirectory with
  | [] => ⟨['/']⟩
  | names => ⟨names.flatMap ('/' :: ·)⟩

theorem lookup_putEntry_self (place : Place) (entry : Entry) (entries : List (Place × Entry)) :
    (putEntry place entry entries).lookup place = some entry := by
  induction entries with
  | nil => simp [putEntry]
  | cons head rest ih =>
    obtain ⟨other, old⟩ := head
    by_cases h : other = place
    · simp [putEntry, h]
    · have h' : (place == other) = false := by simpa using fun heq : place = other => h heq.symm
      simp [putEntry, h, h', List.lookup_cons, ih]

theorem lookup_putEntry_of_ne {place other : Place} (hne : other ≠ place) (entry : Entry)
    (entries : List (Place × Entry)) :
    (putEntry place entry entries).lookup other = entries.lookup other := by
  have hfalse : (other == place) = false := by simpa using hne
  induction entries with
  | nil => simp [putEntry, List.lookup_cons, hfalse]
  | cons head rest ih =>
    obtain ⟨key, old⟩ := head
    by_cases h : key = place
    · subst h
      simp [putEntry, List.lookup_cons, hfalse]
    · simp [putEntry, h, List.lookup_cons, ih]

/-- What was put is found, at any place but the root, which is a directory
    whatever is put there. -/
theorem lookup_put_self (files : Files) {place : Place} (hne : place ≠ []) (entry : Entry) :
    (files.put place entry).lookup place = some entry := by
  simp [lookup, put, hne, lookup_putEntry_self]

/-- Putting changes no other place, whether or not there was an entry before. -/
theorem lookup_put_of_ne (files : Files) {place other : Place} (hne : other ≠ place)
    (entry : Entry) :
    (files.put place entry).lookup other = files.lookup other := by
  simp [lookup, put, lookup_putEntry_of_ne hne]

/-- Entries kept by their places are found as before, and the others no more. -/
theorem lookup_filter (keep : Place → Bool) (entries : List (Place × Entry)) (place : Place) :
    (entries.filter fun (other, _) => keep other).lookup place =
      if keep place then entries.lookup place else none := by
  induction entries with
  | nil => simp
  | cons head rest ih =>
    obtain ⟨key, entry⟩ := head
    by_cases h : place = key
    · subst h
      cases hkeep : keep place <;> simp [hkeep, ih]
    · have hfalse : (place == key) = false := by simpa using h
      cases hkeep : keep key <;> simp [hkeep, List.lookup_cons, hfalse, ih]

/-- Taking away a place leaves nothing at it or below it and changes no other.
    The root is the exception: it is there whatever the entries are. -/
theorem lookup_remove (files : Files) {place : Place} (hne : place ≠ []) (other : Place) :
    (files.remove place).lookup other = if place <+: other then none else files.lookup other := by
  cases other with
  | nil => simp [lookup, hne]
  | cons name names =>
    have hnot : name :: names ≠ [] := List.cons_ne_nil name names
    rw [lookup, if_neg hnot, remove, lookup_filter fun other => !place.isPrefixOf other]
    by_cases hbelow : place <+: name :: names
    · rw [if_pos hbelow, if_neg (by simpa using hbelow)]
    · rw [if_neg hbelow, if_pos (by simpa [Bool.eq_false_iff] using hbelow), lookup, if_neg hnot]

end Files

end EntitySplit
