import EntitySplit.Lexical.Matching

namespace EntitySplit

namespace Lexical

theorem segments_of_next? {t rest : Text} {segment : Segment}
    (h : Segment.next? t = some (segment, rest)) :
    segments t = segment :: segments rest := by
  rw [segments]
  split
  · next hnone =>
    rw [h] at hnone
    exact absurd hnone (by simp)
  · next hsome =>
    rw [h, Option.some.injEq, Prod.mk.injEq] at hsome
    rw [hsome.1, hsome.2]

theorem segments_of_next?_eq_none {t : Text} (h : Segment.next? t = none) : segments t = [] := by
  rw [segments]
  split
  · rfl
  · next hsome =>
    rw [h] at hsome
    exact absurd hsome (by simp)

/-- Segments at whose end `depth` delimiters more have been closed than opened,
    and nowhere before even one more than that. Delimiters count in code only. -/
structure Balanced (opener closer : Char) (depth : Nat) (segments : List Segment) : Prop where
  count_le : ∀ head, head <+: segments →
    head.count (.code closer) ≤ head.count (.code opener) + depth
  count_eq : segments.count (.code closer) = segments.count (.code opener) + depth

namespace Balanced

variable {opener closer : Char} {depth : Nat} {segment : Segment} {segments : List Segment}

theorem nil : Balanced opener closer 0 [] := by
  constructor
  · intro head hhead
    rw [List.prefix_nil.1 hhead]
    exact Nat.le_refl _
  · rfl

theorem depth_eq_zero (h : Balanced opener closer depth []) : depth = 0 := by
  have hcount := h.count_eq
  simpa using hcount.symm

/-- One segment changes the depth by what it opens less what it closes, and
    cannot close what is not open. The premise is an equation of sums, so that
    it serves openers, closers and all other segments. -/
theorem cons_iff {deeper : Nat}
    (hstep : [segment].count (.code closer) + deeper = [segment].count (.code opener) + depth) :
    Balanced opener closer depth (segment :: segments) ↔
      Balanced opener closer deeper segments := by
  constructor
  · intro h
    constructor
    · intro head hhead
      have hle := h.count_le (segment :: head) (List.cons_prefix_cons.2 ⟨rfl, hhead⟩)
      rw [← List.singleton_append, List.count_append, List.count_append] at hle
      omega
    · have heq := h.count_eq
      rw [← List.singleton_append, List.count_append, List.count_append] at heq
      omega
  · intro h
    constructor
    · intro head hhead
      rcases List.prefix_cons_iff.1 hhead with rfl | ⟨front, rfl, hfront⟩
      · exact Nat.zero_le _
      · have hle := h.count_le front hfront
        rw [← List.singleton_append, List.count_append, List.count_append]
        omega
    · have heq := h.count_eq
      rw [← List.singleton_append, List.count_append, List.count_append]
      omega

/-- Behind an opener one closer more is needed. Opener and closer must differ. -/
theorem cons_opener_iff (hne : opener ≠ closer) :
    Balanced opener closer depth (.code opener :: segments) ↔
      Balanced opener closer (depth + 1) segments := by
  apply cons_iff
  simp [hne, Nat.add_comm]

/-- Behind a closer one closer less is needed, if one was needed at all. -/
theorem cons_closer_iff (hne : opener ≠ closer) :
    Balanced opener closer (depth + 1) (.code closer :: segments) ↔
      Balanced opener closer depth segments := by
  apply cons_iff
  simp [hne.symm, Nat.add_comm]

/-- Where nothing has to be closed no closer may come first. -/
theorem not_cons_closer (hne : opener ≠ closer) :
    ¬Balanced opener closer 0 (.code closer :: segments) := by
  intro h
  have hle := h.count_le [.code closer] (List.cons_prefix_cons.2 ⟨rfl, List.nil_prefix⟩)
  simp [hne.symm] at hle

/-- A segment that is neither of the two delimiters makes no difference. -/
theorem cons_other_iff (hopener : segment ≠ .code opener) (hcloser : segment ≠ .code closer) :
    Balanced opener closer depth (segment :: segments) ↔ Balanced opener closer depth segments := by
  apply cons_iff
  simp [hopener, hcloser]

end Balanced

/-- A text is `inside`, then a closer among its code, then `rest`: the first
    closer that `depth + 1` open delimiters need. It is stated without a
    search, by counting. -/
def ClosesAfter (opener closer : Char) (depth : Nat) (t inside rest : Text) : Prop :=
  ∃ pre post, segments t = pre ++ .code closer :: post ∧ Balanced opener closer depth pre ∧
    inside = pre.flatMap Segment.text ∧ rest = post.flatMap Segment.text

/-- The text is what stands inside, the closer and the rest; nothing is lost
    where it is cut. -/
theorem ClosesAfter.text_eq {opener closer : Char} {depth : Nat} {t inside rest : Text}
    (h : ClosesAfter opener closer depth t inside rest) : t = inside ++ closer :: rest := by
  obtain ⟨pre, post, hsegments, -, rfl, rfl⟩ := h
  rw [← flatMap_text_segments t, hsegments, List.flatMap_append, List.flatMap_cons]
  rfl

section

variable {opener closer : Char} {depth : Nat} {t after inside rest : Text} {segment : Segment}

theorem not_closesAfter (hnext : Segment.next? t = none) :
    ¬ClosesAfter opener closer depth t inside rest := by
  rintro ⟨pre, post, hsegments, -⟩
  rw [segments_of_next?_eq_none hnext] at hsegments
  cases pre <;> cases hsegments

/-- Where the first segment is not the closer that is looked for, the closer is
    that of the text behind it. What the segment does to the depth is a
    premise. -/
theorem closesAfter_iff_of_next? {deeper : Nat} (hnext : Segment.next? t = some (segment, after))
    (hnot : segment = .code closer → depth ≠ 0)
    (hstep : ∀ segments, Balanced opener closer depth (segment :: segments) ↔
      Balanced opener closer deeper segments) :
    ClosesAfter opener closer depth t inside rest ↔
      ∃ inner, inside = segment.text ++ inner ∧
        ClosesAfter opener closer deeper after inner rest := by
  constructor
  · rintro ⟨pre, post, hsegments, hbalanced, rfl, hrest⟩
    rw [segments_of_next? hnext] at hsegments
    cases pre with
    | nil =>
      obtain ⟨hcloser, -⟩ := List.cons.inj hsegments
      exact absurd hbalanced.depth_eq_zero (hnot hcloser)
    | cons first pre =>
      obtain ⟨rfl, hafter⟩ := List.cons.inj hsegments
      exact ⟨pre.flatMap Segment.text, List.flatMap_cons, pre, post, hafter,
        (hstep pre).1 hbalanced, rfl, hrest⟩
  · rintro ⟨inner, rfl, pre, post, hafter, hbalanced, rfl, hrest⟩
    refine ⟨segment :: pre, post, ?_, (hstep pre).2 hbalanced, List.flatMap_cons.symm, hrest⟩
    rw [segments_of_next? hnext, hafter, List.cons_append]

/-- Where the closer that is looked for comes first, nothing is inside. -/
theorem closesAfter_iff_of_closer (hne : opener ≠ closer)
    (hnext : Segment.next? t = some (.code closer, after)) :
    ClosesAfter opener closer 0 t inside rest ↔ inside = [] ∧ rest = after := by
  constructor
  · rintro ⟨pre, post, hsegments, hbalanced, hinside, hrest⟩
    rw [segments_of_next? hnext] at hsegments
    cases pre with
    | nil =>
      obtain ⟨-, hafter⟩ := List.cons.inj hsegments
      rw [← hafter, flatMap_text_segments] at hrest
      exact ⟨hinside, hrest⟩
    | cons first pre =>
      obtain ⟨rfl, -⟩ := List.cons.inj hsegments
      exact absurd hbalanced (Balanced.not_cons_closer hne)
  · rintro ⟨rfl, rfl⟩
    exact ⟨[], segments rest, segments_of_next? hnext, Balanced.nil, rfl,
      (flatMap_text_segments rest).symm⟩

/-- The step of the search: what goes by is kept in front of what the closer
    still has before it. The text that has gone by is kept with its last
    character first. -/
theorem exists_closesAfter_iff_of_next? {deeper : Nat} {passed : Text}
    (hnext : Segment.next? t = some (segment, after)) (hnot : segment = .code closer → depth ≠ 0)
    (hstep : ∀ segments, Balanced opener closer depth (segment :: segments) ↔
      Balanced opener closer deeper segments) :
    (∃ inner, inside = (segment.text.reverse ++ passed).reverse ++ inner ∧
        ClosesAfter opener closer deeper after inner rest) ↔
      ∃ inner, inside = passed.reverse ++ inner ∧ ClosesAfter opener closer depth t inner rest := by
  simp only [closesAfter_iff_of_next? hnext hnot hstep, List.reverse_append, List.reverse_reverse,
    List.append_assoc]
  constructor
  · rintro ⟨inner, hinside, hcloses⟩
    exact ⟨_, hinside, inner, rfl, hcloses⟩
  · rintro ⟨_, hinside, inner, rfl, hcloses⟩
    exact ⟨inner, hinside, hcloses⟩

/-- The search finds exactly the closer that counting asks for, at each depth
    and with whatever has gone by. The induction is that of the search. -/
theorem closing?_eq_some_iff (hne : opener ≠ closer) {passed : Text} :
    closing? opener closer depth passed t = some (inside, rest) ↔
      ∃ inner, inside = passed.reverse ++ inner ∧ ClosesAfter opener closer depth t inner rest := by
  fun_induction closing? opener closer depth passed t with
  | case1 depth passed t hnext => simp [not_closesAfter hnext]
  | case2 depth passed t after hnext ih =>
    rw [ih]
    apply exists_closesAfter_iff_of_next? hnext
    · simp [hne]
    · intro segments
      exact Balanced.cons_opener_iff hne
  | case3 passed t after hnext hopener =>
    simp only [closesAfter_iff_of_closer hne hnext, Option.some.injEq, Prod.mk.injEq]
    constructor
    · rintro ⟨rfl, rfl⟩
      exact ⟨[], (List.append_nil _).symm, rfl, rfl⟩
    · rintro ⟨_, rfl, rfl, rfl⟩
      exact ⟨(List.append_nil _).symm, rfl⟩
  | case4 passed t after depth hnext hopener ih =>
    rw [ih]
    apply exists_closesAfter_iff_of_next? hnext
    · simp
    · intro segments
      exact Balanced.cons_closer_iff hne
  | case5 depth passed t c after hnext hopener hcloser ih =>
    rw [ih]
    apply exists_closesAfter_iff_of_next? hnext
    · simp [hcloser]
    · intro segments
      exact Balanced.cons_other_iff (by simp [hopener]) (by simp [hcloser])
  | case6 depth passed t comment after hnext ih =>
    rw [ih]
    apply exists_closesAfter_iff_of_next? hnext
    · simp
    · intro segments
      exact Balanced.cons_other_iff (by simp) (by simp)
  | case7 depth passed t literal after hnext ih =>
    rw [ih]
    apply exists_closesAfter_iff_of_next? hnext
    · simp
    · intro segments
      exact Balanced.cons_other_iff (by simp) (by simp)

end

/-- The closer behind `inside` is the one that matches an opener in front of
    it, `rest` being what follows. -/
def Closes (opener closer : Char) (inside rest : Text) : Prop :=
  ClosesAfter opener closer 0 (inside ++ closer :: rest) inside rest

/-- What matches is found exactly where a text begins with the opener and goes
    on to its closer. The two delimiters must differ; they need not be
    brackets. -/
theorem matching?_eq_some_iff {opener closer : Char} (hne : opener ≠ closer)
    {t inside rest : Text} :
    matching? opener closer t = some (inside, rest) ↔
      t = opener :: (inside ++ closer :: rest) ∧ Closes opener closer inside rest := by
  constructor
  · intro h
    have heq := eq_cons_append_of_matching? h
    rw [heq, matching?, if_pos rfl, closing?_eq_some_iff hne] at h
    obtain ⟨inner, hinner, hcloses⟩ := h
    rw [List.reverse_nil, List.nil_append] at hinner
    exact ⟨heq, hinner ▸ hcloses⟩
  · rintro ⟨rfl, hcloses⟩
    rw [matching?, if_pos rfl, closing?_eq_some_iff hne]
    exact ⟨inside, rfl, hcloses⟩

/-- The closer that matches is determined, and so is what stands inside. Both
    texts are the same, so the search in it has one outcome. -/
theorem Closes.append_inj {opener closer : Char} (hne : opener ≠ closer)
    {inside rest inside' rest' : Text} (h : Closes opener closer inside rest)
    (h' : Closes opener closer inside' rest')
    (heq : inside ++ closer :: rest = inside' ++ closer :: rest') :
    inside = inside' ∧ rest = rest' := by
  have hmatching := (matching?_eq_some_iff hne).2 ⟨rfl, h⟩
  have hmatching' := (matching?_eq_some_iff hne).2 ⟨rfl, h'⟩
  rw [heq, hmatching', Option.some.injEq, Prod.mk.injEq] at hmatching
  exact ⟨hmatching.1.symm, hmatching.2.symm⟩

end Lexical

end EntitySplit
