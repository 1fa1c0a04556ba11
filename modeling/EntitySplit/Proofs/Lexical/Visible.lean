import EntitySplit.Proofs.Lexical.Reading
import EntitySplit.Text.Blank

namespace EntitySplit

namespace Lexical

namespace Segment

/-- White space outside comments and literals. A comment is no white space
    here, although the program skips it like some. -/
def isBlank : Segment → Bool
  | code c => Text.isBlank c
  | comment _ => false
  | literal _ => false

/-- A comment or a literal with another text. Code stays as it is. -/
def mapText (f : Text → Text) : Segment → Segment
  | code c => code c
  | comment t => comment (f t)
  | literal t => literal (f t)

def literalText? : Segment → Option Text
  | literal t => some t
  | _ => none

end Segment

/-- The segments that are not white space. Two texts with the same visible
    segments say the same in code. -/
def visible (segments : List Segment) : List Segment :=
  segments.filter (!·.isBlank)

/-- The string and character literals of a text, in their order and as written. -/
def literals (t : Text) : List Text :=
  (segments t).filterMap Segment.literalText?

section

variable {a b : List Segment} {run : Text} {segment : Segment}

theorem visible_append (a b : List Segment) : visible (a ++ b) = visible a ++ visible b :=
  List.filter_append _ _

theorem visible_blanks (hrun : ∀ c ∈ run, Text.isBlank c = true) :
    visible (run.map .code) = [] := by
  rw [visible, List.filter_eq_nil_iff]
  intro segment hmem
  obtain ⟨c, hc, rfl⟩ := List.mem_map.1 hmem
  simp [Segment.isBlank, hrun c hc]

/-- White space at the end leaves no trace in what is visible. -/
theorem visible_append_blanks (a : List Segment) (segment : Segment)
    (hrun : ∀ c ∈ run, Text.isBlank c = true) :
    visible (a ++ segment :: run.map .code) = visible (a ++ [segment]) := by
  rw [List.append_cons, visible_append, visible_blanks hrun, List.append_nil]

theorem flatMap_text_map_code (run : Text) : (run.map .code).flatMap Segment.text = run := by
  rw [List.flatMap_map]
  exact List.flatMap_singleton' run

theorem visible_cons_of_isBlank (h : segment.isBlank = true) (a : List Segment) :
    visible (segment :: a) = visible a :=
  List.filter_cons_of_neg (by simp [h])

theorem visible_cons (h : segment.isBlank = false) (a : List Segment) :
    visible (segment :: a) = segment :: visible a :=
  List.filter_cons_of_pos (by simp [h])

theorem Segment.isBlank_mapText (f : Text → Text) (segment : Segment) :
    (segment.mapText f).isBlank = segment.isBlank := by
  cases segment <;> rfl

/-- What is visible of a text whose first segment has another text is that
    segment and what is visible behind it. -/
theorem visible_cons_map {f : Text → Text} (h : visible b = (visible a).map (Segment.mapText f))
    (segment : Segment) :
    visible (segment.mapText f :: b) = (visible (segment :: a)).map (Segment.mapText f) := by
  have hsame := segment.isBlank_mapText f
  cases hblank : segment.isBlank with
  | true => rw [visible_cons_of_isBlank (hsame.trans hblank), visible_cons_of_isBlank hblank, h]
  | false => rw [visible_cons (hsame.trans hblank), visible_cons hblank, h, List.map_cons]

/-- No literal is white space, so the literals of a text are among what is
    visible of it. -/
theorem filterMap_literalText?_visible (segments : List Segment) :
    (visible segments).filterMap Segment.literalText? =
      segments.filterMap Segment.literalText? := by
  rw [visible, List.filterMap_filter]
  refine congrArg (List.filterMap · segments) (funext fun segment => ?_)
  cases segment with
  | code c => exact ite_self none
  | comment t => rfl
  | literal t => rfl

theorem filterMap_literalText?_map (f : Text → Text) (segments : List Segment) :
    (segments.map (Segment.mapText f)).filterMap Segment.literalText? =
      (segments.filterMap Segment.literalText?).map f := by
  rw [List.filterMap_map, List.map_filterMap]
  refine congrArg (List.filterMap · segments) (funext fun segment => ?_)
  cases segment <;> rfl

/-- Where the visible segments differ in the texts of comments and literals
    only, the literals differ in the same way. -/
theorem filterMap_literalText?_of_visible {f : Text → Text}
    (h : visible b = (visible a).map (Segment.mapText f)) :
    b.filterMap Segment.literalText? = (a.filterMap Segment.literalText?).map f := by
  rw [← filterMap_literalText?_visible b, h, filterMap_literalText?_map,
    filterMap_literalText?_visible]

end

section

variable {opener closer : Char} {a b : List Segment} {segment segment' : Segment}

/-- Whether a segment is a delimiter is all that counts. The premise on the
    segments behind it is put at every depth, since the first may change it. -/
theorem Balanced.cons_congr (hne : opener ≠ closer)
    (hsegment : ∀ c, segment = .code c ↔ segment' = .code c)
    (h : ∀ depth, Balanced opener closer depth a ↔ Balanced opener closer depth b) (depth : Nat) :
    Balanced opener closer depth (segment :: a) ↔ Balanced opener closer depth (segment' :: b) := by
  by_cases hopens : segment = .code opener
  · rw [hopens, (hsegment opener).1 hopens, Balanced.cons_opener_iff hne,
      Balanced.cons_opener_iff hne]
    exact h (depth + 1)
  · by_cases hcloses : segment = .code closer
    · rw [hcloses, (hsegment closer).1 hcloses]
      cases depth with
      | zero => exact iff_of_false (Balanced.not_cons_closer hne) (Balanced.not_cons_closer hne)
      | succ depth =>
        rw [Balanced.cons_closer_iff hne, Balanced.cons_closer_iff hne]
        exact h depth
    · rw [Balanced.cons_other_iff hopens hcloses,
        Balanced.cons_other_iff (mt (hsegment opener).2 hopens) (mt (hsegment closer).2 hcloses)]
      exact h depth

/-- White space makes no difference to how delimiters balance, if it is no
    delimiter itself. -/
theorem balanced_visible_iff (hne : opener ≠ closer) (hopener : Text.isBlank opener = false)
    (hcloser : Text.isBlank closer = false) (segments : List Segment) (depth : Nat) :
    Balanced opener closer depth (visible segments) ↔ Balanced opener closer depth segments := by
  induction segments generalizing depth with
  | nil => rfl
  | cons segment segments ih =>
    cases hblank : segment.isBlank with
    | false =>
      rw [visible_cons hblank]
      exact Balanced.cons_congr hne (fun _ => Iff.rfl) ih depth
    | true =>
      have hnot {c : Char} (hc : Text.isBlank c = false) : segment ≠ .code c := by
        rintro rfl
        rw [Segment.isBlank, hc] at hblank
        exact absurd hblank (by decide)
      rw [visible_cons_of_isBlank hblank, ih, Balanced.cons_other_iff (hnot hopener) (hnot hcloser)]

/-- The texts of comments and literals make no difference to how delimiters
    balance. -/
theorem balanced_map_iff (hne : opener ≠ closer) (f : Text → Text) (segments : List Segment)
    (depth : Nat) :
    Balanced opener closer depth (segments.map (Segment.mapText f)) ↔
      Balanced opener closer depth segments := by
  induction segments generalizing depth with
  | nil => rfl
  | cons segment segments ih =>
    refine Balanced.cons_congr hne (fun c => ?_) ih depth
    cases segment <;> simp [Segment.mapText]

/-- Delimiters balance in a text if they do in one with the same visible
    segments up to the texts of comments and literals. -/
theorem Balanced.of_visible (hne : opener ≠ closer) (hopener : Text.isBlank opener = false)
    (hcloser : Text.isBlank closer = false) {f : Text → Text} {depth : Nat}
    (hvisible : visible b = (visible a).map (Segment.mapText f))
    (h : Balanced opener closer depth a) :
    Balanced opener closer depth b := by
  rw [← balanced_visible_iff hne hopener hcloser, hvisible, balanced_map_iff hne,
    balanced_visible_iff hne hopener hcloser]
  exact h

end

end Lexical

end EntitySplit
