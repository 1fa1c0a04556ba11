import EntitySplit.Proofs.Block.Search

namespace EntitySplit

/-- The span in a text that has `distance` bytes more before it. -/
def Span.shift (distance : Nat) (span : Span) : Span :=
  ⟨distance + span.start, distance + span.stop⟩

namespace Block

/-- The starts that begin in a text, each from the receiver through its `<`.
    `previous` is the character before the text, whose first byte is the byte
    `position`. -/
def startsFrom (receiver : Text) (position : Nat) (previous : Option Char) : Text → List Span
  | [] => []
  | c :: t =>
    let others := startsFrom receiver (position + c.utf8Size) (some c) t
    match afterStart? receiver previous (c :: t) with
    | none => others
    | some rest => ⟨position, position + Text.size (upTo rest (c :: t))⟩ :: others

/-- The starts of a document in their order. -/
def starts (receiver document : Text) : List Span :=
  startsFrom receiver 0 none document

section

variable {receiver head inner t u : Text} {previous : Option Char} {position : Nat} {span : Span}

/-- At each character either a start begins or none does. In both cases the
    starts behind the character are those of the text behind it, even if a
    start goes over it. -/
theorem startsFrom_cons (receiver : Text) (position : Nat) (previous : Option Char) (c : Char)
    (t : Text) :
    (afterStart? receiver previous (c :: t) = none ∧
      startsFrom receiver position previous (c :: t) =
        startsFrom receiver (position + c.utf8Size) (some c) t) ∨
    ∃ head inner : Text, c :: t = head ++ '<' :: inner ∧
      afterStart? receiver previous (c :: t) = some inner ∧
      startsFrom receiver position previous (c :: t) =
        ⟨position, position + head.size + 1⟩ :: startsFrom receiver (position + c.utf8Size)
          (some c) t := by
  cases h : afterStart? receiver previous (c :: t) with
  | none => exact Or.inl ⟨rfl, by rw [startsFrom, h]⟩
  | some inner =>
    obtain ⟨head, hhead⟩ := exists_append_of_afterStart? h
    have hupTo : upTo inner (c :: t) = head ++ ['<'] := upTo_eq_of_append (by simp [hhead])
    refine Or.inr ⟨head, inner, hhead, rfl, ?_⟩
    rw [startsFrom, h]
    simp only [hupTo, Text.size_append, Text.size_cons, Text.size_nil, Nat.add_assoc]
    rfl

/-- A span is that of a start exactly if the text is cut by it into what comes
    before, the start and what comes behind. The induction is on the text. -/
theorem mem_startsFrom_iff : span ∈ startsFrom receiver position previous t ↔
    ∃ before head inner : Text, t = before ++ (head ++ '<' :: inner) ∧
      afterStart? receiver (before.getLast?.or previous) (head ++ '<' :: inner) = some inner ∧
      span = ⟨position + before.size, position + before.size + head.size + 1⟩ := by
  induction t generalizing position previous with
  | nil => simp [startsFrom]
  | cons c t ih =>
    -- A start behind the first character is one of the text behind that character.
    have hbehind (before : Text) :
      (before.getLast?.or (some c)) = (c :: before).getLast?.or previous := by
      cases before <;> simp [List.getLast?_cons]
    have hsize (before : Text) :
      position + c.utf8Size + before.size = position + Text.size (c :: before) := by
      rw [Text.size_cons, Nat.add_assoc]
    have hlater : span ∈ startsFrom receiver (position + c.utf8Size) (some c) t ↔
        ∃ before head inner : Text, c :: t = c :: before ++ (head ++ '<' :: inner) ∧
          afterStart? receiver ((c :: before).getLast?.or previous) (head ++ '<' :: inner) =
            some inner ∧
          span = ⟨position + Text.size (c :: before),
            position + Text.size (c :: before) + head.size + 1⟩ := by
      simp only [ih, hbehind, hsize, List.cons_append, List.cons.injEq, true_and]
    rcases startsFrom_cons receiver position previous c t with
      ⟨hnone, hcons⟩ | ⟨head, inner, hhead, hsome, hcons⟩
    · rw [hcons, hlater]
      constructor
      · rintro ⟨before, h⟩
        exact ⟨c :: before, h⟩
      · rintro ⟨before, head, inner, heq, hstart, hspan⟩
        cases before with
        | nil =>
          rw [List.nil_append] at heq
          rw [← heq, List.getLast?_nil, Option.none_or, hnone] at hstart
          exact absurd hstart (by simp)
        | cons d before =>
          obtain rfl := (List.cons.inj heq).1
          exact ⟨before, head, inner, heq, hstart, hspan⟩
    · rw [hcons, List.mem_cons, hlater]
      constructor
      · rintro (rfl | ⟨before, h⟩)
        · exact ⟨[], head, inner, hhead, hhead ▸ hsome, rfl⟩
        · exact ⟨c :: before, h⟩
      · rintro ⟨before, head', inner', heq, hstart, hspan⟩
        cases before with
        | nil =>
          left
          rw [List.nil_append] at heq
          rw [← heq, List.getLast?_nil, Option.none_or, hsome, Option.some.injEq] at hstart
          subst hstart
          obtain rfl := List.append_cancel_right (hhead.symm.trans heq)
          exact hspan
        | cons d before =>
          obtain rfl := (List.cons.inj heq).1
          exact Or.inr ⟨before, head', inner', heq, hstart, hspan⟩

/-- The starts of a document are those that `StartsAt` says it has, each
    through its `<`. The two notions are used side by side. -/
theorem mem_starts_iff {document : Text} : span ∈ starts receiver document ↔
    ∃ angle, StartsAt receiver document span.start angle ∧ span.stop = angle + 1 := by
  rw [starts, mem_startsFrom_iff]
  constructor
  · rintro ⟨before, head, inner, heq, hstart, rfl⟩
    obtain ⟨hprevious, head', hhead, hsplit⟩ := afterStart?_eq_some_iff.1 hstart
    obtain rfl := List.append_cancel_right hsplit
    rw [Option.or_none] at hprevious
    simp only [Nat.zero_add]
    exact ⟨_, ⟨before, head, inner, heq, hhead, hprevious, rfl, rfl⟩, by rw [Text.size_append]⟩
  · rintro ⟨angle, ⟨before, head, inner, heq, hhead, hprevious, hsize, rfl⟩, hstop⟩
    refine ⟨before, head, inner, heq,
      afterStart?_eq_some_iff.2 ⟨by rwa [Option.or_none], head, hhead, rfl⟩, ?_⟩
    rw [Nat.zero_add, hsize, ← hsize, ← Text.size_append, ← hstop, hsize]

/-- The starts of a text lie in it, and none is empty. -/
theorem bounds_of_mem_startsFrom (hmem : span ∈ startsFrom receiver position previous t) :
    position ≤ span.start ∧ span.start < span.stop ∧ span.stop ≤ position + t.size := by
  obtain ⟨before, head, inner, rfl, -, rfl⟩ := mem_startsFrom_iff.1 hmem
  have hangle := Char.utf8Size_pos '<'
  simp only [Text.size_append, Text.size_cons]
  omega

/-- A text without `<` has no starts. -/
theorem startsFrom_eq_nil (hangle : '<' ∉ t) : startsFrom receiver position previous t = [] := by
  rw [List.eq_nil_iff_forall_not_mem]
  intro span hmem
  obtain ⟨before, head, inner, rfl, -⟩ := mem_startsFrom_iff.1 hmem
  exact hangle (by simp)

/-- To begin counting at a later byte is to shift all starts. The character
    before the text is the same. -/
theorem startsFrom_add (distance : Nat) : startsFrom receiver (distance + position) previous t =
    (startsFrom receiver position previous t).map (Span.shift distance) := by
  induction t generalizing position previous with
  | nil => rfl
  | cons c t ih =>
    rw [startsFrom, startsFrom, Nat.add_assoc, ih]
    split
    · rfl
    · rw [List.map_cons, Span.shift, Nat.add_assoc]

theorem startsFrom_eq_map (receiver : Text) (position : Nat) (previous : Option Char) (t : Text) :
    startsFrom receiver position previous t =
      (startsFrom receiver 0 previous t).map (Span.shift position) := by
  rw [← startsFrom_add, Nat.add_zero]

/-- No start that begins in `t` goes on into `u`. Then a text can be cut
    between the two without cutting a start. -/
def EndsStarts (receiver t u : Text) : Prop :=
  ∀ before behind head inner : Text, t = before ++ behind → behind ≠ [] → IsStart receiver head →
    behind ++ u = head ++ '<' :: inner → ∃ within, behind = head ++ '<' :: within

/-- A start that begins before such a cut is found without the text behind it.
    The text before the cut must not be empty, or the start would begin behind. -/
theorem EndsStarts.afterStart?_append (h : EndsStarts receiver t u) (hne : t ≠ []) :
    afterStart? receiver previous (t ++ u) = (afterStart? receiver previous t).map (· ++ u) := by
  ext inner
  rw [Option.map_eq_some_iff]
  constructor
  · intro hstart
    obtain ⟨hprevious, head, hhead, heq⟩ := afterStart?_eq_some_iff.1 hstart
    obtain ⟨within, hwithin⟩ := h [] t head inner rfl hne hhead heq
    refine ⟨within, afterStart?_eq_some_iff.2 ⟨hprevious, head, hhead, hwithin⟩, ?_⟩
    rw [hwithin, List.append_assoc, List.cons_append] at heq
    exact (List.cons.inj (List.append_cancel_left heq)).2
  · rintro ⟨within, hstart, rfl⟩
    obtain ⟨hprevious, head, hhead, rfl⟩ := afterStart?_eq_some_iff.1 hstart
    exact afterStart?_eq_some_iff.2
      ⟨hprevious, head, hhead, by rw [List.append_assoc, List.cons_append]⟩

/-- Where no start goes over a cut, the starts of a text are those before the
    cut and those behind it. Those behind it see the last character before the
    cut. -/
theorem startsFrom_append (h : EndsStarts receiver t u) :
    startsFrom receiver position previous (t ++ u) =
    startsFrom receiver position previous t ++
      startsFrom receiver (position + t.size) (t.getLast?.or previous) u := by
  induction t generalizing position previous with
  | nil => rfl
  | cons c t ih =>
    have hrest : EndsStarts receiver t u := by
      intro before behind head inner ht
      exact h (c :: before) behind head inner (by rw [ht, List.cons_append])
    have hlast : t.getLast?.or (some c) = (c :: t).getLast?.or previous := by
      cases t <;> simp [List.getLast?_cons]
    have hstart : afterStart? receiver previous (c :: (t ++ u)) =
        (afterStart? receiver previous (c :: t)).map (· ++ u) :=
          h.afterStart?_append (List.cons_ne_nil c t)
    rw [List.cons_append, startsFrom, startsFrom, hstart, ih hrest, hlast, Text.size_cons,
      Nat.add_assoc]
    cases hinner : afterStart? receiver previous (c :: t) with
    | none => rfl
    | some inner =>
      obtain ⟨head, hhead⟩ := exists_append_of_afterStart? hinner
      have hupTo : upTo inner (c :: t) = head ++ ['<'] := upTo_eq_of_append (by simp [hhead])
      have hupTo' : upTo (inner ++ u) (c :: (t ++ u)) = head ++ ['<'] :=
        upTo_eq_of_append (by rw [← List.cons_append, hhead]; simp)
      simp only [Option.map_some, hupTo, hupTo', List.cons_append]

section

variable (hword : ∀ c ∈ receiver, Text.isWord c = true)
include hword

/-- No start goes over a `;`, as it has none in it. The receiver must be a
    word. -/
theorem endsStarts_semicolon (t u : Text) : EndsStarts receiver (t ++ [';']) u := by
  intro before behind head inner ht hne hhead heq
  obtain ⟨body, d, rfl⟩ := (List.eq_nil_or_concat behind).resolve_left hne
  rw [List.concat_eq_append] at ht heq ⊢
  have hlast : ';' = d := by
    have hends := congrArg List.getLast? ht
    simpa using hends
  subst hlast
  have hsplit : body ++ ';' :: u = [] ++ (head ++ '<' :: inner) := by simpa using heq
  rcases behind_or_within hword hhead hsplit with ⟨w, hnil, -⟩ | ⟨w, rfl⟩
  · exact absurd hnil (by simp)
  · rw [List.append_assoc, List.append_assoc] at heq
    have hangle := List.append_cancel_left heq
    cases w with
    | nil => exact absurd (List.cons.inj hangle).1 (by decide)
    | cons c w =>
      obtain ⟨rfl, -⟩ := List.cons.inj hangle
      exact ⟨w ++ [';'], by simp⟩

/-- No start goes over into a call on the receiver that is not within a word.
    This holds even for the receiver `Entity`, by the lemma on later calls. -/
theorem endsStarts_call (hne : receiver ≠ []) (hlast : t.getLast?.any Text.isWord = false)
    (hcall : IsCall receiver u) : EndsStarts receiver t u := by
  intro before behind head inner ht hbehind hhead heq
  have hlast' : behind.getLast?.any Text.isWord = false := Text.any_getLast?_of_append (ht ▸ hlast)
  obtain ⟨within, hwithin, -⟩ :=
    exists_append_of_later_call hne hword hhead hcall heq.symm hbehind hlast'
  exact ⟨within, hwithin⟩

end

end

end Block

end EntitySplit
