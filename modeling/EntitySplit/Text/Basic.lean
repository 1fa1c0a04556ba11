namespace EntitySplit

/-- A text as a list of characters, measured and cut by the bytes of its UTF-8
    form. Positions count bytes, and a position inside a character is nowhere:
    every cut at one is refused. -/
abbrev Text := List Char

namespace Text

/-- The number of bytes of the UTF-8 form. -/
def size : Text → Nat
  | [] => 0
  | c :: rest => c.utf8Size + size rest

@[simp] theorem size_nil : size [] = 0 := rfl

@[simp] theorem size_cons (c : Char) (t : Text) : size (c :: t) = c.utf8Size + size t := rfl

@[simp] theorem size_append (s t : Text) : size (s ++ t) = size s + size t := by
  induction s with
  | nil => simp
  | cons c s ih => simp [ih, Nat.add_assoc]

/-- How many characters the first `bytes` bytes hold, `passed` more having been
    counted already; none if the text is shorter or the cut falls inside a
    character. -/
def countWithin? : Text → (bytes passed : Nat) → Option Nat
  | _, 0, passed => some passed
  | [], _ + 1, _ => none
  | c :: rest, bytes + 1, passed =>
    if c.utf8Size ≤ bytes + 1 then countWithin? rest (bytes + 1 - c.utf8Size) (passed + 1) else none

/-- The text before and after a byte position, none if the text cannot be cut
    there. -/
def splitAt? (t : Text) (position : Nat) : Option (Text × Text) :=
  (countWithin? t position 0).map fun count => (t.take count, t.drop count)

/-- The text from a byte position on. -/
def from? (t : Text) (position : Nat) : Option Text :=
  (splitAt? t position).map (·.2)

theorem countWithin?_append (head rest : Text) (passed : Nat) :
    countWithin? (head ++ rest) head.size passed = some (passed + head.length) := by
  induction head generalizing passed with
  | nil => cases rest <;> simp [countWithin?]
  | cons c head ih =>
    obtain ⟨bytes, hbytes⟩ : ∃ bytes, c.utf8Size + size head = bytes + 1 :=
      ⟨c.utf8Size + size head - 1, by have := c.utf8Size_pos; omega⟩
    have hrest : bytes + 1 - c.utf8Size = size head := by omega
    rw [List.cons_append, size_cons, hbytes, countWithin?, if_pos (by omega), hrest, ih,
      List.length_cons]
    rw [Nat.add_assoc, Nat.add_comm 1]

theorem exists_append_of_countWithin? {t : Text} {position passed count : Nat}
    (h : countWithin? t position passed = some count) :
    ∃ head rest, t = head ++ rest ∧ head.size = position ∧ count = passed + head.length := by
  fun_induction countWithin? t position passed with
  | case1 t passed =>
    rw [Option.some.injEq] at h
    exact ⟨[], t, rfl, rfl, by simp [h]⟩
  | case2 => simp at h
  | case3 c t bytes passed hfits ih =>
    obtain ⟨head, rest, heq, hsize, hcount⟩ := ih h
    refine ⟨c :: head, rest, by rw [heq, List.cons_append], ?_, ?_⟩
    · rw [size_cons]
      omega
    · rw [List.length_cons]
      omega
  | case4 => simp at h

/-- A text can be cut between any two of its characters, and the bytes before
    the cut name it. All that is said of cuts goes back to this. -/
theorem splitAt?_eq_some_iff {t head rest : Text} {position : Nat} :
    splitAt? t position = some (head, rest) ↔ t = head ++ rest ∧ head.size = position := by
  unfold splitAt?
  constructor
  · intro h
    obtain ⟨count, hcount, hcut⟩ := Option.map_eq_some_iff.1 h
    obtain ⟨before, after, rfl, hsize, rfl⟩ := exists_append_of_countWithin? hcount
    simp only [Nat.zero_add, List.take_left', List.drop_left', Prod.mk.injEq] at hcut
    obtain ⟨rfl, rfl⟩ := hcut
    exact ⟨rfl, hsize⟩
  · rintro ⟨rfl, rfl⟩
    simp [countWithin?_append]

theorem from?_eq_some_iff {t rest : Text} {position : Nat} :
    from? t position = some rest ↔ ∃ head, t = head ++ rest ∧ head.size = position := by
  simp [from?, splitAt?_eq_some_iff]

/-- Two cuts of a text at one position are one cut, as no character takes no
    bytes. -/
theorem append_inj_of_size {head rest head' rest' : Text} (h : head ++ rest = head' ++ rest')
    (hsize : head.size = head'.size) : head = head' ∧ rest = rest' := by
  have hcut : splitAt? (head ++ rest) head'.size = some (head, rest) :=
    splitAt?_eq_some_iff.2 ⟨rfl, hsize⟩
  rw [splitAt?_eq_some_iff.2 ⟨h, rfl⟩, Option.some.injEq, Prod.mk.injEq] at hcut
  exact ⟨hcut.1.symm, hcut.2.symm⟩

theorem eq_nil_of_size_eq_zero {t : Text} (h : t.size = 0) : t = [] := by
  cases t with
  | nil => rfl
  | cons c t =>
    have hpositive := c.utf8Size_pos
    rw [size_cons] at h
    omega

/-- Of two beginnings of a text, the one of fewer bytes begins the other. Both
    may be the same. -/
theorem exists_append_of_size_le {head rest head' rest' : Text} (h : head ++ rest = head' ++ rest')
    (hle : head.size ≤ head'.size) : ∃ middle, head' = head ++ middle := by
  rcases List.append_eq_append_iff.1 h with ⟨middle, hhead', -⟩ | ⟨middle, hhead, -⟩
  · exact ⟨middle, hhead'⟩
  · have hsize : size middle = 0 := by
      rw [hhead, size_append] at hle
      omega
    have hmiddle := eq_nil_of_size_eq_zero hsize
    exact ⟨[], by rw [hhead, hmiddle, List.append_nil, List.append_nil]⟩

section

variable {p : Char → Bool} {run rest : Text}

theorem takeWhile_run_append (hrun : ∀ c ∈ run, p c = true)
    (hrest : ∀ c ∈ rest.head?, p c = false) :
    (run ++ rest).takeWhile p = run := by
  rw [List.takeWhile_append_of_pos hrun]
  cases rest with
  | nil => rw [List.takeWhile_nil, List.append_nil]
  | cons c rest => rw [List.takeWhile_cons_of_neg (by simp [hrest c rfl]), List.append_nil]

theorem dropWhile_run_append (hrun : ∀ c ∈ run, p c = true)
    (hrest : ∀ c ∈ rest.head?, p c = false) :
    (run ++ rest).dropWhile p = rest := by
  rw [List.dropWhile_append_of_pos hrun]
  cases rest with
  | nil => rfl
  | cons c rest => exact List.dropWhile_cons_of_neg (by simp [hrest c rfl])

/-- A text is a longest run of characters of one kind and what follows it. The
    run may be empty. -/
theorem exists_run (p : Char → Bool) (t : Text) :
    ∃ run rest, t = run ++ rest ∧ (∀ c ∈ run, p c = true) ∧
    ∀ c ∈ rest.head?, p c = false := by
  refine ⟨t.takeWhile p, t.dropWhile p, List.takeWhile_append_dropWhile.symm,
    List.all_eq_true.1 List.all_takeWhile, ?_⟩
  intro c hc
  have hnot := List.head?_dropWhile_not p t
  rw [Option.mem_def.1 hc] at hnot
  simpa using hnot

end

/-- What follows `mark` if the text begins with it. -/
def after? (mark t : Text) : Option Text :=
  mark.isPrefixOf? t

theorem after?_nil (t : Text) : after? [] t = some t :=
  rfl

theorem after?_cons_nil (m : Char) (mark : Text) : after? (m :: mark) [] = none :=
  rfl

theorem after?_cons_cons (m c : Char) (mark t : Text) :
    after? (m :: mark) (c :: t) = if m == c then after? mark t else none :=
  rfl

theorem after?_cons_of_ne {m c : Char} (hne : m ≠ c) (mark t : Text) :
    after? (m :: mark) (c :: t) = none := by
  rw [after?_cons_cons, beq_eq_false_iff_ne.2 hne]
  rfl

theorem eq_append_of_after? {mark t rest : Text} (h : after? mark t = some rest) :
    t = mark ++ rest := by
  induction mark generalizing t with
  | nil =>
    rw [after?_nil, Option.some.injEq] at h
    rw [h, List.nil_append]
  | cons m mark ih =>
    cases t with
    | nil =>
      rw [after?_cons_nil] at h
      exact absurd h (by simp)
    | cons c t =>
      rw [after?_cons_cons] at h
      split at h
      · next hm => rw [beq_iff_eq.1 hm, ih h, List.cons_append]
      · exact absurd h (by simp)

theorem after?_append (mark rest : Text) : after? mark (mark ++ rest) = some rest := by
  induction mark with
  | nil => rw [List.nil_append, after?_nil]
  | cons m mark ih => rw [List.cons_append, after?_cons_cons, if_pos (beq_self_eq_true m), ih]

theorem after?_eq_some_iff {mark t rest : Text} : after? mark t = some rest ↔ t = mark ++ rest := by
  constructor
  · exact eq_append_of_after?
  · rintro rfl
    exact after?_append mark rest

theorem isSome_after?_iff {mark t : Text} : (after? mark t).isSome ↔ mark <+: t := by
  rw [Option.isSome_iff_exists]
  constructor
  · rintro ⟨rest, h⟩
    exact ⟨rest, (eq_append_of_after? h).symm⟩
  · rintro ⟨rest, rfl⟩
    exact ⟨rest, after?_append mark rest⟩

theorem after?_eq_none_iff {mark t : Text} : after? mark t = none ↔ ¬mark <+: t := by
  rw [← isSome_after?_iff, Option.not_isSome_iff_eq_none]

/-- Cuts just after the first `mark`, or at the end if there is none. -/
def through (mark : Text) : Text → Text × Text
  | [] => ([], [])
  | c :: t =>
    match after? mark (c :: t) with
    | some rest => (mark, rest)
    | none => (c :: (through mark t).1, (through mark t).2)

theorem through_append (mark t : Text) : (through mark t).1 ++ (through mark t).2 = t := by
  induction t with
  | nil => rfl
  | cons c t ih =>
    rw [through]
    split
    · next h => exact (eq_append_of_after? h).symm
    · simp [ih]

/-- The text `count` times over. -/
def replicate (count : Nat) (t : Text) : Text :=
  (List.replicate count t).flatten

/-- Whether the last character is a line feed. -/
def endsLine (t : Text) : Bool :=
  t.getLast? = some '\n'

end Text

end EntitySplit
