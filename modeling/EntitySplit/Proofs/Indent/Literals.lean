import EntitySplit.Proofs.Indent.Segments
import EntitySplit.Proofs.Text.Endings

namespace EntitySplit

namespace Indent

open Lexical
open Text (EndedBy IsBreak isBlank isIndent)

section

variable {statements eol : Text}

theorem isBlank_of_mem_lines (heol : IsBreak eol) {ls : List Text}
    (hls : ∀ line ∈ ls, isBlankLine line = true) :
    ∀ c ∈ ls.flatMap (· ++ eol), isBlank c = true := by
  intro c hc
  obtain ⟨line, hline, hc⟩ := List.mem_flatMap.1 hc
  rcases List.mem_append.1 hc with hc | hc
  · exact List.all_eq_true.1 (hls line hline) c hc
  · exact heol.isBlank c hc

/-- Statements whose lines end alike are their core between white space. The
    core as a text is its lines, each with that line break but for the last. -/
theorem exists_core (h : EndedBy eol statements) (hcore : coreLines statements ≠ []) :
    ∃ before core behind, statements = before ++ (core ++ behind) ∧
      (coreLines statements).flatMap (· ++ eol) = core ++ eol ∧ (∀ c ∈ before, isBlank c = true) ∧
      (∀ c ∈ behind, isBlank c = true) ∧ (behind = [] ∨ eol <+: behind) := by
  obtain ⟨ends, hends, heq⟩ := h.exists_append_eq
  obtain ⟨before, after, hlines, hbefore, hafter⟩ := exists_lines_eq statements
  have hblank := isBlank_of_mem_lines h.isBreak hafter
  rw [hlines, List.flatMap_append, List.flatMap_append, ← Text.intercalate_append hcore] at heq
  suffices hbehind : ∃ behind,
      statements = before.flatMap (· ++ eol) ++ (eol.intercalate (coreLines statements) ++ behind) ∧
      (∀ c ∈ behind, isBlank c = true) ∧ (behind = [] ∨ eol <+: behind) by
    obtain ⟨behind, hsplit, hbehind⟩ := hbehind
    exact ⟨_, _, behind, hsplit, (Text.intercalate_append hcore).symm,
      isBlank_of_mem_lines h.isBreak hbefore, hbehind⟩
  rcases hends with rfl | rfl
  · refine ⟨eol ++ after.flatMap (· ++ eol), by simpa using heq, ?_,
      Or.inr (List.prefix_append _ _)⟩
    exact List.forall_mem_append.2 ⟨h.isBreak.isBlank, hblank⟩
  · by_cases hnone : after = []
    · subst hnone
      refine ⟨[], (List.append_left_inj ends).1 ?_, by simp, Or.inl rfl⟩
      simpa using heq
    · rw [← Text.intercalate_append hnone] at heq hblank
      refine ⟨ends ++ ends.intercalate after, (List.append_left_inj ends).1 ?_, ?_,
        Or.inr (List.prefix_append _ _)⟩
      · simpa using heq
      · exact List.forall_mem_append.2 ⟨h.isBreak.isBlank, (List.forall_mem_append.1 hblank).1⟩

end

/-- The text set anew, up to a brace behind it, is an indentation and the
    brace. -/
theorem eq_append_of_aligned {oldIndent newIndent rest : Text}
    (h : Aligned oldIndent newIndent ['}'] rest) :
    ∃ indent, (∀ c ∈ indent, isIndent c = true) ∧ rest = indent ++ ['}'] := by
  obtain ⟨indent, indent', u, hindent, hindent', heq, rfl⟩ := h
  cases indent with
  | nil =>
    rw [List.nil_append] at heq
    subst heq
    exact ⟨indent', hindent', rfl⟩
  | cons c indent =>
    obtain ⟨rfl, -⟩ := List.cons.inj heq
    exact absurd (hindent '}' List.mem_cons_self) (by decide)

section

variable {statements rest oldIndent newIndent eol closeIndent : Text} {found : List Segment}

/-- The core of statements is read with the line break behind it, unless a
    literal takes that in. `htrails` excludes the literal, and the white space
    around the core holds no segment that is seen. -/
theorem exists_reads_core (h : Closes '{' '}' statements rest) (hends : EndedBy eol statements)
    (htrails : ¬LiteralTrails (segments statements)) : ∃ found,
      (∀ w, Reads ((coreLines statements).flatMap (· ++ eol) ++ w) found w) ∧
        visible found = visible (segments statements) := by
  obtain ⟨read, hread, -, -, -⟩ := h.exists_reads
  obtain rfl := hread.segments_inside (by decide)
  have hbrace : ¬AtLineEnd ('}' :: rest) := fun hend => absurd (hend '}' rfl) (by decide)
  by_cases hcore : coreLines statements = []
  · have hnone := coreLines_eq_nil_iff.1 hcore
    refine ⟨[], fun w => ?_, ?_⟩
    · rw [hcore]
      exact .done w
    · rw [hread.eq_map_of_isBlank hnone, visible_blanks hnone]
      rfl
  · obtain ⟨before, core, behind, heq, hlines, hbefore, hbehind, hstart⟩ := exists_core hends hcore
    rw [heq, List.append_assoc, List.append_assoc] at hread
    obtain ⟨others, hothers, hcoreRead⟩ := (reads_blanks hbefore _).exists_eq_append hread
      (by simp only [List.length_append]; omega)
    rw [← heq] at hothers
    have htrails' : ¬LiteralTrails others := by
      rintro ⟨a, front, blanks, b, rfl, hblanks⟩
      exact htrails
        ⟨before.map .code ++ a, front, blanks, b, by rw [hothers, List.append_assoc], hblanks⟩
    obtain ⟨found, hfound, hvisible⟩ :=
      hcoreRead.exists_through_break hends.isBreak hbehind hstart hbrace htrails'
    refine ⟨found, fun w => ?_, ?_⟩
    · rw [hlines, List.append_assoc]
      exact hfound w
    · rw [hvisible, hothers, visible_append, visible_blanks hbefore, List.nil_append]

/-- Lines set anew hold what the lines hold, each comment and literal set anew
    as well. -/
theorem exists_reads_shifted (hold : ∀ c ∈ oldIndent, isIndent c = true)
    (hnew : ∀ c ∈ newIndent, isIndent c = true) (hclose : ∀ c ∈ closeIndent, isIndent c = true)
    (heol : IsBreak eol) {ls : List Text} (hls : ∀ line ∈ ls, '\n' ∉ line)
    (h : Reads (ls.flatMap (· ++ eol) ++ ['}']) found ['}']) (other : Text) :
    ∃ found', Reads ((ls.map (shift oldIndent newIndent)).flatMap (· ++ eol) ++
        (closeIndent ++ '}' :: other)) found' ('}' :: other) ∧
      visible found' = (visible found).map
        (Segment.mapText (continued oldIndent newIndent)) := by
  have hblank {indent : Text} (hindent : ∀ c ∈ indent, isIndent c = true) :
    ∀ c ∈ indent, isBlank c = true :=
    fun c hc => isBlank_of_isIndent (hindent c hc)
  obtain ⟨first, behind, hfirst, hbehind, hvisible⟩ :=
    exists_reads_of_aligned hold hnew h (List.cons_ne_nil _ _) (aligned_shiftFirst hold hnew _)
  obtain ⟨indent, hindent, rfl⟩ := eq_append_of_aligned hbehind
  obtain ⟨last, hlast, heq⟩ := eq_append_of_aligned (aligned_shiftFirst hold hnew ['}'])
  rw [shiftFirst_continued_lines hold heol hls, heq] at hfirst
  have hplain : ∀ c ∈ List.head? ('}' :: other), IsPlain c := by simp [IsPlain]
  obtain ⟨found', hfound', hvisible'⟩ :=
    (hfirst.trans (reads_blanks (hblank hindent) ['}'])).exchange_blanks
      (hblank hlast) (fun hmem => absurd (hlast _ hmem) (by decide)) (by simp [AtLineEnd])
        (hblank hclose) hplain
  refine ⟨found', hfound', ?_⟩
  rw [hvisible', visible_append, visible_blanks (hblank hindent), List.append_nil, hvisible]

variable (h : Closes '{' '}' statements rest) (hends : EndedBy eol statements)
  (htrails : ¬LiteralTrails (segments statements)) (hnew : ∀ c ∈ newIndent, isIndent c = true)
  (hclose : ∀ c ∈ closeIndent, isIndent c = true)

include h hends htrails hnew hclose

/-- Between the line breaks of a method the statements hold the comments and
    literals that they held before, each set anew. -/
theorem exists_reads_enclosed (other : Text) : ∃ found,
    Reads (enclosed statements newIndent eol closeIndent ++ '}' :: other) found ('}' :: other) ∧
      visible found =
        (visible (segments statements)).map
          (Segment.mapText (continued (base statements) newIndent)) := by
  obtain ⟨_, _, hlined, -, -⟩ := Text.exists_lined hends.isBreak statements
  have hfeed : ∀ line ∈ coreLines statements, '\n' ∉ line :=
    fun line hline => hlined.not_mem line (mem_lines_of_mem_coreLines hline)
  obtain ⟨core, hcore, hvisible⟩ := exists_reads_core h hends htrails
  obtain ⟨found, hfound, hvisible'⟩ :=
    exists_reads_shifted (isIndent_of_mem_base statements) hnew hclose hends.isBreak
      hfeed (hcore ['}']) other
  refine ⟨eol.map .code ++ found, ?_, ?_⟩
  · rw [enclosed, List.append_assoc, List.append_assoc]
    exact (reads_blanks hends.isBreak.isBlank _).trans hfound
  · rw [visible_append, visible_blanks hends.isBreak.isBlank, List.nil_append, hvisible', hvisible]

/-- The literals of statements that are set anew: those of the statements, set
    anew themselves. A literal within a line is therefore the same. -/
theorem literals_enclosed : literals (enclosed statements newIndent eol closeIndent) =
    (literals statements).map (continued (base statements) newIndent) := by
  obtain ⟨found, hfound, hvisible⟩ := exists_reads_enclosed h hends htrails hnew hclose []
  rw [literals, hfound.segments_inside (by decide)]
  exact filterMap_literalText?_of_visible hvisible

/-- Statements that are set anew close a brace where they did before, unless a
    literal takes in the end of the last line. Here a line may end with a
    backslash, unlike in `closes_enclosed`, but the lines have to end alike. -/
theorem closes_enclosed_of_not_trails (other : Text) :
    Closes '{' '}' (enclosed statements newIndent eol closeIndent) other := by
  obtain ⟨read, hread, -, hbalanced, -⟩ := h.exists_reads
  obtain rfl := hread.segments_inside (by decide)
  obtain ⟨found, hfound, hvisible⟩ := exists_reads_enclosed h hends htrails hnew hclose other
  rw [closes_iff_passes (by decide)]
  exact ⟨found, hfound, hbalanced.of_visible (by decide) (by decide) (by decide) hvisible⟩

end

end Indent

end EntitySplit
