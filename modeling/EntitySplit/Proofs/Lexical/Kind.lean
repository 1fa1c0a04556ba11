import EntitySplit.Proofs.Lexical.Reading

namespace EntitySplit

namespace Lexical

inductive Kind where
  | code
  | comment
  | string
  | character
  deriving DecidableEq, Repr

def Segment.kind : Segment → Kind
  | code _ => .code
  | comment _ => .comment
  | literal t => if t.head? = some '\'' then .character else .string

/-- Characters with their kinds, as a text is read from its beginning. -/
abbrev Labelled := List (Char × Kind)

def Labelled.text (labelled : Labelled) : Text :=
  labelled.map Prod.fst

/-- A text all of whose characters are of one kind. -/
def labelled (kind : Kind) (t : Text) : Labelled :=
  t.map fun c => (c, kind)

/-- The characters of the segments with the kinds of these. The marks and
    quotes of a literal are of its kind. -/
def labelsOf (segments : List Segment) : Labelled :=
  segments.flatMap fun segment => labelled segment.kind segment.text

def labels (t : Text) : Labelled :=
  labelsOf (segments t)

/-- The kind of the character that holds a byte, counted from the beginning of
    the labelled text. -/
def kindIn? : Labelled → (position : Nat) → Option Kind
  | [], _ => none
  | (c, kind) :: others, position =>
    if position < c.utf8Size then some kind else kindIn? others (position - c.utf8Size)

def kindAt? (t : Text) (position : Nat) : Option Kind :=
  kindIn? (labels t) position

section

variable {t u rest before after : Text} {segments others : List Segment} {kind : Kind} {c : Char}

@[simp] theorem Labelled.text_append (a b : Labelled) : Labelled.text (a ++ b) = a.text ++ b.text :=
  List.map_append ..

@[simp] theorem Labelled.text_labelled (kind : Kind) (t : Text) : (labelled kind t).text = t := by
  rw [Labelled.text, labelled, List.map_map]
  exact List.map_id t

@[simp] theorem labelled_append (kind : Kind) (t u : Text) :
    labelled kind (t ++ u) = labelled kind t ++ labelled kind u :=
  List.map_append ..

@[simp] theorem labelsOf_nil : labelsOf [] = [] :=
  rfl

@[simp] theorem labelsOf_cons (segment : Segment) (segments : List Segment) :
    labelsOf (segment :: segments) = labelled segment.kind segment.text ++ labelsOf segments :=
  List.flatMap_cons ..

@[simp] theorem labelsOf_append (segments others : List Segment) :
    labelsOf (segments ++ others) = labelsOf segments ++ labelsOf others :=
  List.flatMap_append ..

theorem labelsOf_code (run : Text) : labelsOf (run.map .code) = labelled .code run := by
  induction run with
  | nil => rfl
  | cons c run ih =>
    rw [List.map_cons, labelsOf_cons, ih]
    rfl

theorem text_labelsOf (segments : List Segment) :
    (labelsOf segments).text = segments.flatMap Segment.text := by
  induction segments with
  | nil => rfl
  | cons segment segments ih =>
    rw [labelsOf_cons, Labelled.text_append, Labelled.text_labelled, ih, List.flatMap_cons]

theorem text_labels (t : Text) : (labels t).text = t := by
  rw [labels, text_labelsOf, flatMap_text_segments]

/-- What has been read is labelled by its segments, and the rest as it is
    alone. -/
theorem Reads.labels_eq (h : Reads t segments rest) :
    labels t = labelsOf segments ++ labels rest := by
  rw [labels, h.segments_eq, labelsOf_append]
  rfl

/-- Behind a labelled text a byte is of the kind that it is of in what follows. -/
theorem kindIn?_append (a b : Labelled) (position : Nat) :
    kindIn? (a ++ b) (a.text.size + position) = kindIn? b position := by
  induction a with
  | nil => simp [Labelled.text]
  | cons label a ih =>
    obtain ⟨c, kind⟩ := label
    rw [List.cons_append, kindIn?]
    simp only [Labelled.text, List.map_cons, Text.size_cons] at ih ⊢
    rw [if_neg (by omega), show c.utf8Size + Text.size (a.map Prod.fst) + position - c.utf8Size =
      Text.size (a.map Prod.fst) + position by omega, ih]

/-- Behind what has been read, the kinds of a text are those of the rest alone.
    So a place where nothing is open can be taken for a beginning. -/
theorem Reads.kindAt?_add (h : Reads t segments rest) (position : Nat) :
    kindAt? t (Text.size (segments.flatMap Segment.text) + position) = kindAt? rest position := by
  rw [kindAt?, h.labels_eq, ← text_labelsOf, kindIn?_append, kindAt?]

/-- A text passes through the segment that holds the character behind `before`,
    `front` and `back` being what the segment has before and from that
    character on. -/
structure PassesAt (t before : Text) (segment : Segment) (front back rest : Text) : Prop where
  reads : ∃ segments, Reads t segments (segment.text ++ rest) ∧
    before = segments.flatMap Segment.text ++ front
  next : Segment.next? (segment.text ++ rest) = some (segment, rest)
  text_eq : segment.text = front ++ back
  back_ne : back ≠ []

/-- Each character of a text is held by a segment. The text before it is
    arbitrary, so that the character may stand within a comment. -/
theorem exists_passesAt (h : t = before ++ c :: after) :
    ∃ segment front back rest, PassesAt t before segment front back rest ∧
      c :: after = back ++ rest := by
  induction hlength : t.length using Nat.strong_induction_on generalizing t before with
  | h length ih =>
    cases hnext : Segment.next? t with
    | none =>
      rw [Segment.next?_eq_none_iff.1 hnext] at h
      exact absurd h (by simp)
    | some found =>
      obtain ⟨segment, rest⟩ := found
      obtain ⟨heq, -⟩ := Segment.eq_append_of_next? hnext
      -- The character is in the first segment, or in the shorter text behind it.
      by_cases hin : before.length < segment.text.length
      · obtain ⟨back, hback⟩ : ∃ back, segment.text = before ++ back := by
          have hprefix : before <+: segment.text :=
            List.prefix_of_prefix_length_le ⟨c :: after, h.symm⟩ ⟨rest, heq.symm⟩ (Nat.le_of_lt hin)
          obtain ⟨back, hback⟩ := hprefix
          exact ⟨back, hback.symm⟩
        refine ⟨segment, before, back, rest, ⟨⟨[], heq ▸ .done t, by simp⟩, heq ▸ hnext, hback, ?_⟩,
          ?_⟩
        · rintro rfl
          simp [hback] at hin
        · rw [heq, hback, List.append_assoc] at h
          exact (List.append_cancel_left h).symm
      · obtain ⟨between, rfl⟩ : ∃ between, before = segment.text ++ between := by
          have hprefix : segment.text <+: before :=
            List.prefix_of_prefix_length_le ⟨rest, heq.symm⟩ ⟨c :: after, h.symm⟩
              (Nat.le_of_not_lt hin)
          obtain ⟨between, hbetween⟩ := hprefix
          exact ⟨between, hbetween.symm⟩
        have hrest : rest = between ++ c :: after := by
          rw [heq, List.append_assoc] at h
          exact List.append_cancel_left h
        have hlt := Segment.length_lt_of_next? hnext
        obtain ⟨holder, front, back, behind, hpasses, hbehind⟩ :=
          ih rest.length (hlength ▸ hlt) hrest rfl
        obtain ⟨segments, hreads, hbetween⟩ := hpasses.reads
        refine ⟨holder, front, back, behind,
          ⟨⟨segment :: segments, .next hnext hreads, ?_⟩, hpasses.next,
          hpasses.text_eq, hpasses.back_ne⟩, hbehind⟩
        rw [hbetween, List.flatMap_cons, List.append_assoc]

/-- The segment that a text passes through is one of the text. -/
theorem PassesAt.mem_segments {segment : Segment} {front back : Text}
    (h : PassesAt t before segment front back rest) : segment ∈ Lexical.segments t := by
  obtain ⟨_, hreads, -⟩ := h.reads
  rw [hreads.segments_eq, segments_of_next? h.next]
  exact List.mem_append_right _ List.mem_cons_self

/-- A character is of the kind of the segment that holds it. -/
theorem PassesAt.kindAt?_eq {segment : Segment} {front back : Text}
    (h : PassesAt t before segment front back rest) :
    kindAt? t before.size = some segment.kind := by
  obtain ⟨segments, hreads, rfl⟩ := h.reads
  obtain ⟨d, back, rfl⟩ := List.exists_cons_of_ne_nil h.back_ne
  have hfront :
    kindIn? (labelled segment.kind segment.text ++ labels rest) front.size = some segment.kind := by
    have hsize :=
      kindIn?_append (labelled segment.kind front)
        (labelled segment.kind (d :: back) ++ labels rest) 0
    rw [Labelled.text_labelled, Nat.add_zero, ← List.append_assoc, ← labelled_append, ← h.text_eq]
      at hsize
    rw [hsize]
    simp [labelled, kindIn?, Char.utf8Size_pos]
  rw [kindAt?, hreads.labels_eq, (Reads.single h.next).labels_eq, labelsOf_cons, labelsOf_nil,
    List.append_nil, Text.size_append, ← text_labelsOf, kindIn?_append, hfront]

/-- Up to a character of code a text is read without remainder, since a segment
    of code is a single character. -/
theorem exists_reads_of_kindAt?_code (h : t = before ++ c :: after)
    (hkind : kindAt? t before.size = some .code) :
    ∃ segments, Reads t segments (c :: after) ∧ before = segments.flatMap Segment.text := by
  obtain ⟨segment, front, back, rest, hpasses, hback⟩ := exists_passesAt h
  obtain ⟨segments, hreads, hbefore⟩ := hpasses.reads
  have htext := hpasses.text_eq
  rw [hpasses.kindAt?_eq, Option.some.injEq] at hkind
  cases segment with
  | code d =>
    obtain ⟨d', back', rfl⟩ := List.exists_cons_of_ne_nil hpasses.back_ne
    have hfront : front = [] := by
      rw [← List.length_eq_zero_iff]
      have hlength := congrArg List.length htext
      simp only [Segment.text, List.length_cons, List.length_nil, List.length_append] at hlength
      omega
    subst hfront
    rw [List.append_nil] at hbefore
    refine ⟨segments, ?_, hbefore⟩
    rw [hback, ← List.nil_append (d' :: back'), ← htext]
    exact hreads
  | comment => exact absurd hkind (by simp [Segment.kind])
  | literal t =>
    rw [Segment.kind] at hkind
    split at hkind <;> exact absurd hkind (by decide)

end

end Lexical

end EntitySplit
