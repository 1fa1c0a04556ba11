import EntitySplit.Proofs.Lexical.Kind
import EntitySplit.Text.Blank
import EntitySplit.Text.Span

namespace EntitySplit

namespace Lexical

/-- The characters of code that begin in a span, but for white space,
    `position` being where the first one begins. A character counts by its
    first byte. -/
def codeFrom (span : Span) (position : Nat) : Labelled → Text
  | [] => []
  | (c, kind) :: others =>
    let rest := codeFrom span (position + c.utf8Size) others
    if span.start ≤ position ∧ position < span.stop ∧ kind = .code ∧
      Text.isBlank c = false then c :: rest else rest

/-- The code in a span of a text, without white space. The text is read from
    its beginning, so the span may begin within a comment. -/
def codeIn (t : Text) (span : Span) : Text :=
  codeFrom span 0 (labels t)

section

variable {span : Span} {position : Nat} {a b : Labelled} {t lead blank rest : Text} {c : Char}
  {segments : List Segment}

/-- The code of two labelled texts is that of the one and that of the other,
    the second further on by the size of the first. -/
theorem codeFrom_append (span : Span) (position : Nat) (a b : Labelled) :
    codeFrom span position (a ++ b) =
      codeFrom span position a ++ codeFrom span (position + a.text.size) b := by
  induction a generalizing position with
  | nil => rfl
  | cons label a ih =>
    obtain ⟨c, kind⟩ := label
    simp only [List.cons_append, codeFrom, ih, Labelled.text, List.map_cons, Text.size_cons,
      Nat.add_assoc]
    split <;> rfl

theorem codeFrom_of_stop_le (h : span.stop ≤ position) : codeFrom span position a = [] := by
  induction a generalizing position with
  | nil => rfl
  | cons label a ih =>
    obtain ⟨c, kind⟩ := label
    rw [codeFrom, if_neg (by omega), ih (by omega)]

theorem codeFrom_of_le_start (h : position + a.text.size ≤ span.start) :
    codeFrom span position a = [] := by
  induction a generalizing position with
  | nil => rfl
  | cons label a ih =>
    obtain ⟨c, kind⟩ := label
    have hpositive := c.utf8Size_pos
    simp only [Labelled.text, List.map_cons, Text.size_cons] at h ih
    rw [codeFrom, if_neg (by omega), ih (by omega)]

theorem codeFrom_of_isBlank (h : ∀ label ∈ a, Text.isBlank label.1 = true) :
    codeFrom span position a = [] := by
  induction a generalizing position with
  | nil => rfl
  | cons label a ih =>
    obtain ⟨hblank, hrest⟩ := List.forall_mem_cons.1 h
    obtain ⟨c, kind⟩ := label
    rw [codeFrom, if_neg (by simp [hblank]), ih hrest]

/-- The code of a span is that of its parts, wherever it is parted; a character
    that the parting goes through belongs to the first. -/
theorem codeFrom_split {start middle stop : Nat} (hstart : start ≤ middle) (hstop : middle ≤ stop) :
    codeFrom ⟨start, stop⟩ position a =
      codeFrom ⟨start, middle⟩ position a ++ codeFrom ⟨middle, stop⟩ position a := by
  induction a generalizing position with
  | nil => rfl
  | cons label a ih =>
    obtain ⟨c, kind⟩ := label
    by_cases hbefore : position < middle
    · have hinside : position < stop := Nat.lt_of_lt_of_le hbefore hstop
      have hnot : ¬middle ≤ position := Nat.not_le_of_lt hbefore
      simp only [codeFrom, ih, hbefore, hinside, hnot, true_and, false_and, if_false]
      split <;> rfl
    · have hle : middle ≤ position := Nat.le_of_not_lt hbefore
      have hle' : start ≤ position := Nat.le_trans hstart hle
      have hnone : codeFrom ⟨start, middle⟩ position ((c, kind) :: a) = [] :=
        codeFrom_of_stop_le hle
      have hnone' : codeFrom ⟨start, middle⟩ (position + c.utf8Size) a = [] :=
        codeFrom_of_stop_le (Nat.le_add_right_of_le hle)
      rw [hnone]
      simp only [codeFrom, ih, hle, hle', hnone', true_and, List.nil_append]

/-- The code of a part is that of its beginning and that of the rest. The two
    may be cut at any byte between. -/
theorem codeIn_split (t : Text) {start middle stop : Nat} (hstart : start ≤ middle)
    (hstop : middle ≤ stop) :
    codeIn t ⟨start, stop⟩ = codeIn t ⟨start, middle⟩ ++ codeIn t ⟨middle, stop⟩ :=
  codeFrom_split hstart hstop

/-- The labels of a text are cut where the text is, whatever the segments are
    at the cut. -/
theorem exists_labels_append (h : t = lead ++ rest) :
    ∃ a b, labels t = a ++ b ∧ a.text = lead ∧ b.text = rest :=
  List.map_eq_append_iff.1 ((text_labels t).trans h)

/-- White space between two places of a text is no code, be it in a comment or
    not. -/
theorem codeIn_eq_nil_of_isBlank (h : t = lead ++ (blank ++ rest))
    (hblank : ∀ c ∈ blank, Text.isBlank c = true) :
    codeIn t ⟨lead.size, (lead ++ blank).size⟩ = [] := by
  obtain ⟨a, b, hlabels, rfl, hbehind⟩ := exists_labels_append h
  obtain ⟨b, d, rfl, rfl, -⟩ := List.map_eq_append_iff.1 hbehind
  have hlead : codeFrom ⟨a.text.size, Text.size (a.text ++ b.map Prod.fst)⟩ 0 a = [] :=
    codeFrom_of_le_start (Nat.le_of_eq (Nat.zero_add _))
  rw [codeIn, hlabels, codeFrom_append, codeFrom_append, hlead,
    codeFrom_of_isBlank fun label hmem => hblank _ (List.mem_map_of_mem hmem), codeFrom_of_stop_le]
  · rfl
  · rw [Text.size_append, Nat.zero_add]
    exact Nat.le_refl _

/-- Behind a character of code the last one is that character. The text must be
    read up to it without remainder, for else it could be in a comment. -/
theorem getLast?_codeIn_of_reads (h : Reads t segments (c :: rest))
    (hcode : Reads (c :: rest) [.code c] rest) (hblank : Text.isBlank c = false) :
    (codeIn t ⟨0, Text.size (segments.flatMap Segment.text ++ [c])⟩).getLast? = some c := by
  have hsize :
    (labelsOf segments).text.size < Text.size (segments.flatMap Segment.text ++ [c]) := by
    have hpositive := c.utf8Size_pos
    rw [text_labelsOf, Text.size_append, Text.size_cons, Text.size_nil]
    omega
  have hbehind : codeFrom ⟨0, Text.size (segments.flatMap Segment.text ++ [c])⟩
      ((labelsOf segments).text.size + c.utf8Size) (labels rest) = [] := by
    apply codeFrom_of_stop_le
    rw [text_labelsOf, Text.size_append, Text.size_cons, Text.size_nil, Nat.add_zero]
  have hlabels : labels t = labelsOf segments ++ (c, .code) :: labels rest := by
    rw [h.labels_eq, hcode.labels_eq]
    rfl
  rw [codeIn, hlabels, codeFrom_append, Nat.zero_add, codeFrom, hbehind]
  dsimp only
  rw [if_pos ⟨Nat.zero_le _, hsize, rfl, hblank⟩, List.getLast?_concat]

end

end Lexical

end EntitySplit
