import EntitySplit.Block.Start
import EntitySplit.Proofs.Text.Blank

namespace EntitySplit

namespace Text

theorem isWord_of_isBlank {c : Char} (h : isBlank c = true) : isWord c = false :=
  eq_false_of_isBlank (by decide +kernel) h

/-- A mark that begins with no blank stands behind the blanks of a text in one
    way only. So skipping all blanks first loses no match. -/
theorem after?_dropWhile_eq_some_iff {c : Char} (hc : isBlank c = false) {mark t rest : Text} :
    after? (c :: mark) (t.dropWhile isBlank) = some rest ↔
      ∃ blanks, (∀ b ∈ blanks, isBlank b = true) ∧ t = blanks ++ c :: (mark ++ rest) := by
  rw [after?_eq_some_iff, List.cons_append]
  constructor
  · intro h
    obtain ⟨blanks, t, rfl, hblanks, hstop⟩ := exists_run isBlank t
    rw [dropWhile_run_append hblanks hstop] at h
    exact ⟨blanks, hblanks, by rw [h]⟩
  · rintro ⟨blanks, hblanks, rfl⟩
    exact dropWhile_run_append hblanks (by simp [hc])

section

variable {p : Char → Bool} {run s u t : Text} {c : Char}

/-- A word that begins later than a run of word characters, and not within a
    word, begins after the run. The predicate is arbitrary; only the character
    before the word is looked at. -/
theorem exists_of_run_append (hrun : ∀ b ∈ run, p b = true) (h : run ++ s = u ++ t) (hne : u ≠ [])
    (hlast : u.getLast?.any p = false) : ∃ v, u = run ++ v ∧ s = v ++ t := by
  rcases List.append_eq_append_iff.1 h with ⟨v, hu, hs⟩ | ⟨v, hrun', -⟩
  · exact ⟨v, hu, hs⟩
  · have hmem : u.getLast hne ∈ run := by
      rw [hrun']
      exact List.mem_append_left v (List.getLast_mem hne)
    rw [List.getLast?_eq_some_getLast hne, Option.any_some, hrun _ hmem] at hlast
    exact absurd hlast (by decide)

/-- A word does not begin among characters that belong to no word. It begins
    behind the last of them. -/
theorem exists_of_gap_append (hgap : ∀ b ∈ run, p b = false) (h : run ++ s = u ++ c :: t)
    (hc : p c = true) :
    ∃ v, u = run ++ v ∧ s = v ++ c :: t := by
  rcases List.append_eq_append_iff.1 h with ⟨v, hu, hs⟩ | ⟨v, hrun, hs⟩
  · exact ⟨v, hu, hs⟩
  · cases v with
    | nil => exact ⟨[], by simpa using hrun.symm, hs.symm⟩
    | cons b v =>
      obtain ⟨rfl, -⟩ := List.cons.inj hs
      have hmem : c ∈ run := by simp [hrun]
      rw [hgap c hmem] at hc
      exact absurd hc (by decide)

theorem any_getLast?_of_append (h : (s ++ t).getLast?.any p = false) :
    t.getLast?.any p = false := by
  cases t with
  | nil => rfl
  | cons c t =>
    rwa [List.getLast?_append, List.getLast?_cons, Option.some_or, ← List.getLast?_cons] at h

end

end Text

namespace Block

/-- What a block start is before its `<`: the receiver, `.` and `Entity`, with
    blanks between them and after. -/
def IsStart (receiver head : Text) : Prop :=
  ∃ b₁ b₂ b₃, (∀ c ∈ b₁ ++ b₂ ++ b₃, Text.isBlank c = true) ∧
    head = receiver ++ (b₁ ++ '.' :: (b₂ ++ (['E', 'n', 't', 'i', 't', 'y'] ++ b₃)))

/-- A start is found exactly where one is written and no word runs into it, and
    what is found is the text behind its `<`. Nothing is asked of the receiver. -/
theorem afterStart?_eq_some_iff {receiver t inner : Text} {previous : Option Char} :
    afterStart? receiver previous t = some inner ↔
      previous.any Text.isWord = false ∧ ∃ head, IsStart receiver head ∧
        t = head ++ '<' :: inner := by
  have hdot : Text.isBlank '.' = false := by decide
  have hentity : Text.isBlank 'E' = false := by decide
  have hangle : Text.isBlank '<' = false := by decide
  unfold afterStart?
  cases previous.any Text.isWord with
  | true => simp
  | false =>
    simp only [Bool.false_eq_true, if_false, true_and, Option.bind_eq_some_iff,
      Text.after?_dropWhile_eq_some_iff hdot, Text.after?_dropWhile_eq_some_iff hentity,
      Text.after?_dropWhile_eq_some_iff hangle, Text.after?_eq_some_iff]
    constructor
    · rintro ⟨_, rfl, _, ⟨b₁, h₁, rfl⟩, _, ⟨b₂, h₂, rfl⟩, b₃, h₃, rfl⟩
      refine ⟨_, ⟨b₁, b₂, b₃, ?_, rfl⟩, by simp⟩
      intro c hc
      simp only [List.mem_append] at hc
      rcases hc with (hc | hc) | hc
      · exact h₁ c hc
      · exact h₂ c hc
      · exact h₃ c hc
    · rintro ⟨head, ⟨b₁, b₂, b₃, hblanks, rfl⟩, rfl⟩
      simp only [List.mem_append] at hblanks
      have h₁ : ∀ c ∈ b₁, Text.isBlank c = true := fun c hc => hblanks c (Or.inl (Or.inl hc))
      have h₂ : ∀ c ∈ b₂, Text.isBlank c = true := fun c hc => hblanks c (Or.inl (Or.inr hc))
      have h₃ : ∀ c ∈ b₃, Text.isBlank c = true := fun c hc => hblanks c (Or.inr hc)
      simp only [List.append_assoc, List.cons_append]
      exact ⟨_, rfl, _, ⟨b₁, h₁, rfl⟩, _, ⟨b₂, h₂, rfl⟩, b₃, h₃, rfl⟩

section

variable {receiver head inner : Text}

theorem isWord_of_mem_entity : ∀ c ∈ ['E', 'n', 't', 'i', 't', 'y'], Text.isWord c = true :=
  List.all_eq_true.1 (by decide)

/-- The characters of a start are word characters, blanks and the dot, if the
    receiver is a word. -/
theorem IsStart.kind_of_mem (hword : ∀ c ∈ receiver, Text.isWord c = true)
    (hstart : IsStart receiver head)
    {c : Char} (hc : c ∈ head) : Text.isWord c = true ∨ Text.isBlank c = true ∨ c = '.' := by
  obtain ⟨b₁, b₂, b₃, hblanks, rfl⟩ := hstart
  simp only [List.mem_append] at hblanks
  rw [List.mem_append, List.mem_append, List.mem_cons, List.mem_append, List.mem_append] at hc
  rcases hc with hc | hc | rfl | hc | hc | hc
  · exact Or.inl (hword c hc)
  · exact Or.inr (Or.inl (hblanks c (Or.inl (Or.inl hc))))
  · exact Or.inr (Or.inr rfl)
  · exact Or.inr (Or.inl (hblanks c (Or.inl (Or.inr hc))))
  · exact Or.inl (isWord_of_mem_entity c hc)
  · exact Or.inr (Or.inl (hblanks c (Or.inr hc)))

/-- A start has no `;` in it, so it lies within one statement. -/
theorem semicolon_not_mem_of_isStart (hword : ∀ c ∈ receiver, Text.isWord c = true)
    (hstart : IsStart receiver head) : ';' ∉ head := by
  intro hmem
  rcases hstart.kind_of_mem hword hmem with h | h | h
  · exact absurd h (by decide)
  · exact absurd h (by decide)
  · exact absurd h (by decide)

/-- The text goes on with the receiver and, behind blanks, a dot. Every start
    is a call, and so is the statement that replaces a block. -/
def IsCall (receiver t : Text) : Prop :=
  ∃ blanks rest, (∀ c ∈ blanks, Text.isBlank c = true) ∧ t = receiver ++ (blanks ++ '.' :: rest)

theorem IsStart.isCall (hstart : IsStart receiver head) (t : Text) :
    IsCall receiver (head ++ t) := by
  obtain ⟨b₁, b₂, b₃, hblanks, rfl⟩ := hstart
  refine ⟨b₁, b₂ ++ (['E', 'n', 't', 'i', 't', 'y'] ++ b₃) ++ t,
    fun c hc => hblanks c (by simp [hc]), ?_⟩
  simp

/-- Nothing is called on the `Entity` of a start, even where the receiver is
    `Entity`: `<` follows the one word and `.` the other. -/
theorem not_isCall_at_entity (hword : ∀ c ∈ receiver, Text.isWord c = true) {blanks t : Text}
    (hblanks : ∀ c ∈ blanks, Text.isBlank c = true) :
    ¬IsCall receiver (['E', 'n', 't', 'i', 't', 'y'] ++ (blanks ++ '<' :: t)) := by
  have hstop {blanks t : Text} {c : Char} (hblanks : ∀ b ∈ blanks, Text.isBlank b = true)
      (hc : Text.isWord c = false) : ∀ d ∈ (blanks ++ c :: t).head?, Text.isWord d = false := by
    cases blanks with
    | nil => simpa using hc
    | cons b blanks => simpa using Text.isWord_of_isBlank (hblanks b (List.mem_cons_self ..))
  rintro ⟨blanks', rest, hblanks', h⟩
  -- Both words end here, so what follows them agrees as well, and so does what follows the blanks.
  have hwords := congrArg (List.dropWhile Text.isWord) h
  rw [Text.dropWhile_run_append isWord_of_mem_entity (hstop hblanks (by decide)),
    Text.dropWhile_run_append hword (hstop hblanks' (by decide))] at hwords
  have hrest := congrArg (List.dropWhile Text.isBlank) hwords
  rw [Text.dropWhile_run_append hblanks (by simp [Text.isBlank]),
    Text.dropWhile_run_append hblanks' (by simp [Text.isBlank])] at hrest
  exact absurd (List.cons.inj hrest).1 (by decide)

/-- A call on the receiver behind the beginning of a start is behind its `<`.
    It cannot begin within a word, nor among the blanks and the dot, nor at the
    word `Entity` of the start; these are the three places that the start has. -/
theorem exists_append_of_later_call (hne : receiver ≠ [])
    (hword : ∀ c ∈ receiver, Text.isWord c = true) (hstart : IsStart receiver head) {u call : Text}
    (hcall : IsCall receiver call) (heq : head ++ '<' :: inner = u ++ call) (hu : u ≠ [])
    (hlast : u.getLast?.any Text.isWord = false) :
    ∃ v, u = head ++ '<' :: v ∧ inner = v ++ call := by
  obtain ⟨first, others, hreceiver⟩ := List.exists_cons_of_ne_nil hne
  obtain ⟨t, ht⟩ : ∃ t, call = first :: t := by
    obtain ⟨blanks, rest, -, rfl⟩ := hcall
    exact ⟨_, by rw [hreceiver]; rfl⟩
  have hfirst : Text.isWord first = true := hword first (by simp [hreceiver])
  obtain ⟨b₁, b₂, b₃, hblanks, rfl⟩ := hstart
  have hgap : ∀ c ∈ b₁ ++ '.' :: b₂, Text.isWord c = false := by
    intro c hc
    simp only [List.mem_append, List.mem_cons] at hc hblanks
    rcases hc with hc | rfl | hc
    · exact Text.isWord_of_isBlank (hblanks c (Or.inl (Or.inl hc)))
    · decide
    · exact Text.isWord_of_isBlank (hblanks c (Or.inl (Or.inr hc)))
  have hgap' : ∀ c ∈ b₃ ++ ['<'], Text.isWord c = false := by
    intro c hc
    simp only [List.mem_append, List.mem_singleton] at hc hblanks
    rcases hc with hc | rfl
    · exact Text.isWord_of_isBlank (hblanks c (Or.inr hc))
    · decide
  have hpieces :
    receiver ++ ((b₁ ++ '.' :: b₂) ++
      (['E', 'n', 't', 'i', 't', 'y'] ++ ((b₃ ++ ['<']) ++ inner))) =
        u ++ call := by
      rw [← heq]
      simp
  obtain ⟨u₁, rfl, h₁⟩ := Text.exists_of_run_append hword hpieces hu hlast
  rw [ht] at h₁
  obtain ⟨u₂, rfl, h₂⟩ := Text.exists_of_gap_append hgap h₁ hfirst
  have hentity : u₂ ≠ [] := by
    rintro rfl
    rw [List.nil_append, ← ht, List.append_assoc] at h₂
    exact not_isCall_at_entity hword (fun c hc => hblanks c (by simp [hc])) (h₂ ▸ hcall)
  have hlast₂ := Text.any_getLast?_of_append (Text.any_getLast?_of_append hlast)
  obtain ⟨u₃, rfl, h₃⟩ := Text.exists_of_run_append isWord_of_mem_entity h₂ hentity hlast₂
  obtain ⟨u₄, rfl, h₄⟩ := Text.exists_of_gap_append hgap' h₃ hfirst
  exact ⟨u₄, by simp, by rw [ht, h₄]⟩

end

end Block

end EntitySplit
