import EntitySplit.Lexical.Segment

namespace EntitySplit

namespace Lexical

/-- The text up to the closer that ends `depth + 1` open delimiters, and what
    follows that closer. `passed` is the text gone through so far, its last
    character first. A character that is opener and closer at once opens.
    Delimiters in comments and literals do not count. -/
def closing? (opener closer : Char) (depth : Nat) (passed t : Text) : Option (Text × Text) :=
  match _hnext : Segment.next? t with
  | none => none
  | some (.code c, rest) =>
    if c = opener then
      closing? opener closer (depth + 1) (c :: passed) rest
    else if c = closer then
      match depth with
      | 0 => some (passed.reverse, rest)
      | depth + 1 => closing? opener closer depth (c :: passed) rest
    else
      closing? opener closer depth (c :: passed) rest
  | some (.comment comment, rest) => closing? opener closer depth (comment.reverse ++ passed) rest
  | some (.literal literal, rest) => closing? opener closer depth (literal.reverse ++ passed) rest
termination_by t.length
decreasing_by all_goals exact Segment.length_lt_of_next? _hnext

/-- The text between an opener, which has to begin the text, and its closer,
    and what follows the closer. -/
def matching? (opener closer : Char) : Text → Option (Text × Text)
  | [] => none
  | c :: t => if c = opener then closing? opener closer 0 [] t else none

/-- What was passed and the text are the inside, the closer and what follows
    it, by induction on the text. -/
theorem eq_append_of_closing? {opener closer : Char} {depth : Nat} {passed t inside rest : Text}
    (h : closing? opener closer depth passed t = some (inside, rest)) :
    passed.reverse ++ t = inside ++ closer :: rest := by
  fun_induction closing? opener closer depth passed t with
  | case1 => simp at h
  | case2 depth passed t after hnext ih =>
    rw [← ih h, (Segment.eq_append_of_next? hnext).1]
    simp [Segment.text]
  | case3 passed t after hnext hopener =>
    simp only [Option.some.injEq, Prod.mk.injEq] at h
    obtain ⟨rfl, rfl⟩ := h
    rw [(Segment.eq_append_of_next? hnext).1]
    rfl
  | case4 passed t after depth hnext hopener ih =>
    rw [← ih h, (Segment.eq_append_of_next? hnext).1]
    simp [Segment.text]
  | case5 depth passed t c after hnext hopener hcloser ih =>
    rw [← ih h, (Segment.eq_append_of_next? hnext).1]
    simp [Segment.text]
  | case6 depth passed t comment after hnext ih =>
    rw [← ih h, (Segment.eq_append_of_next? hnext).1]
    simp [Segment.text]
  | case7 depth passed t literal after hnext ih =>
    rw [← ih h, (Segment.eq_append_of_next? hnext).1]
    simp [Segment.text]

/-- A text that begins with an opener and has its closer is the two, what is
    between them, and what follows. -/
theorem eq_cons_append_of_matching? {opener closer : Char} {t inside rest : Text}
    (h : matching? opener closer t = some (inside, rest)) :
    t = opener :: (inside ++ closer :: rest) := by
  unfold matching? at h
  split at h
  · simp at h
  · split at h
    · next hopener => simp [hopener, ← eq_append_of_closing? h]
    · simp at h

/-- Opening braces count one up and closing braces one down. -/
def braceWeight : Segment → Int
  | .code '{' => 1
  | .code '}' => -1
  | _ => 0

/-- The opening braces of a text less its closing ones. Like the search for a
    closer it looks at the characters of code only. -/
def braceBalance (t : Text) : Int :=
  (segments t).foldr (fun segment balance => braceWeight segment + balance) 0

end Lexical

end EntitySplit
