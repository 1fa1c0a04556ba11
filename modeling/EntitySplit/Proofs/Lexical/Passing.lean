import EntitySplit.Proofs.Lexical.Reading

namespace EntitySplit

namespace Lexical

/-- Delimiters that balance in two texts balance in the one behind the other. -/
theorem Balanced.append {opener closer : Char} {a b : List Segment}
    (ha : Balanced opener closer 0 a)
    (hb : Balanced opener closer 0 b) : Balanced opener closer 0 (a ++ b) := by
  constructor
  · intro head hhead
    rcases List.prefix_or_prefix_of_prefix hhead (List.prefix_append a b) with hfirst | ⟨more, rfl⟩
    · exact ha.count_le head hfirst
    · have hmore := hb.count_le more ((List.prefix_append_right_inj a).1 hhead)
      have heq := ha.count_eq
      rw [List.count_append, List.count_append]
      omega
  · have hfirst := ha.count_eq
    have hsecond := hb.count_eq
    rw [List.count_append, List.count_append]
    omega

/-- Delimiters balance where none is. -/
theorem Balanced.of_not_mem {opener closer : Char} {segments : List Segment}
    (hopener : .code opener ∉ segments) (hcloser : .code closer ∉ segments) :
    Balanced opener closer 0 segments := by
  constructor
  · intro head hhead
    rw [List.count_eq_zero_of_not_mem fun hmem => hcloser (hhead.subset hmem)]
    exact Nat.zero_le _
  · rw [List.count_eq_zero_of_not_mem hopener, List.count_eq_zero_of_not_mem hcloser]

/-- Delimiters that balance do so within another pair of them. The two must
    differ. -/
theorem Balanced.enclose {opener closer : Char} (hne : opener ≠ closer) {segments : List Segment}
    (h : Balanced opener closer 0 segments) :
    Balanced opener closer 0 (.code opener :: (segments ++ [.code closer])) := by
  rw [Balanced.cons_opener_iff hne]
  constructor
  · intro head hhead
    rcases List.prefix_concat_iff.1 hhead with rfl | hinside
    · have heq := h.count_eq
      simp [List.count_append, hne.symm, heq]
    · have hle := h.count_le head hinside
      omega
  · have heq := h.count_eq
    simp [List.count_append, hne.symm, heq]

/-- The text is read up to `rest` without remainder, and on the way as much is
    closed as is opened and nothing before it is opened. -/
def Passes (opener closer : Char) (t rest : Text) : Prop :=
  ∃ segments, Reads t segments rest ∧ Balanced opener closer 0 segments

section

variable {opener closer : Char} {t u v inside rest : Text}

namespace Passes

theorem trans (h : Passes opener closer t u) (h' : Passes opener closer u v) :
    Passes opener closer t v := by
  obtain ⟨a, ha, hbalanced⟩ := h
  obtain ⟨b, hb, hbalanced'⟩ := h'
  exact ⟨a ++ b, ha.trans hb, hbalanced.append hbalanced'⟩

/-- Code that holds no delimiter is passed. That it is read as code is a
    premise, as marks in it could begin a literal with what follows. -/
theorem of_code {run : Text} (hreads : Reads (run ++ rest) (run.map .code) rest)
    (hopener : opener ∉ run)
    (hcloser : closer ∉ run) : Passes opener closer (run ++ rest) rest := by
  refine ⟨_, hreads, .of_not_mem ?_ ?_⟩
  · simpa using hopener
  · simpa using hcloser

/-- Another text can take the place of the rest, if it begins nothing more than
    the rest did. There must have been a rest. -/
theorem exchange (h : Passes opener closer (inside ++ u) u) (hu : u ≠ []) (hyields : YieldsTo u v) :
    Passes opener closer (inside ++ v) v := by
  obtain ⟨segments, hreads, hbalanced⟩ := h
  rw [List.append_cancel_right hreads.text_eq]
  exact ⟨segments, hreads.exchange hu hyields, hbalanced⟩

end Passes

/-- A closer matches exactly if the text before it is passed. It must be a
    character that is code wherever it stands. -/
theorem closes_iff_passes (hcloser : isInert closer = true) :
    Closes opener closer inside rest ↔
      Passes opener closer (inside ++ closer :: rest) (closer :: rest) := by
  constructor
  · intro h
    obtain ⟨segments, hreads, -, hbalanced, -⟩ := h.exists_reads
    exact ⟨segments, hreads, hbalanced⟩
  · rintro ⟨pre, hreads, hbalanced⟩
    have hclose : Reads ([closer] ++ rest) ([closer].map .code) rest :=
      reads_of_isInert (by simpa using hcloser) rest
    refine ⟨pre, segments rest, ?_, hbalanced, List.append_cancel_right hreads.text_eq,
      (flatMap_text_segments rest).symm⟩
    rw [(hreads.trans hclose).segments_eq, List.append_assoc]
    rfl

/-- The closer is found whatever stands behind it, since nothing is open where
    it stands. -/
theorem Closes.exchange (hcloser : isInert closer = true) (h : Closes opener closer inside rest)
    (other : Text) :
    Closes opener closer inside other := by
  rw [closes_iff_passes hcloser] at h ⊢
  exact h.exchange (by simp) (.cons (isStringMark_of_isInert hcloser))

/-- What is enclosed by an opener and its closer is passed, so that enclosed
    texts can be put one behind another. -/
theorem Closes.passes (hne : opener ≠ closer) (hopener : isInert opener = true)
    (h : Closes opener closer inside rest) :
    Passes opener closer (opener :: (inside ++ closer :: rest)) rest := by
  obtain ⟨segments, hreads, hclose, hbalanced, -⟩ := h.exists_reads
  have hopen :
    Reads ([opener] ++ (inside ++ closer :: rest)) ([opener].map .code)
      (inside ++ closer :: rest) :=
    reads_of_isInert (by simpa using hopener) _
  exact ⟨_, hopen.trans (hreads.trans hclose), hbalanced.enclose hne⟩

end

end Lexical

end EntitySplit
