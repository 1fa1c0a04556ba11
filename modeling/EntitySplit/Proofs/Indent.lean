import Mathlib.Data.List.Forall2
import EntitySplit.Proofs.Lexical.Passing
import EntitySplit.Proofs.Lexical.Respacing
import EntitySplit.Proofs.Text.Lines

namespace EntitySplit

namespace Indent

open Lexical
open Text (IsBreak IsLineGap Lined isBlank isIndent)

theorem isBlankLine_iff {line : Text} : isBlankLine line = true ↔ ∀ c ∈ line, isBlank c = true :=
  List.all_eq_true

/-- The lines of statements are blank ones, the core and blank ones again. -/
theorem exists_lines_eq (statements : Text) : ∃ before behind, Text.lines statements =
    before ++ (coreLines statements ++ behind) ∧ (∀ line ∈ before, isBlankLine line = true) ∧
      ∀ line ∈ behind, isBlankLine line = true := by
  refine ⟨(Text.lines statements).takeWhile isBlankLine,
    (((Text.lines statements).dropWhile isBlankLine).reverse.takeWhile isBlankLine).reverse, ?_, ?_,
      ?_⟩
  · rw [coreLines, ← List.reverse_append, List.takeWhile_append_dropWhile, List.reverse_reverse,
      List.takeWhile_append_dropWhile]
  · exact List.all_eq_true.1 List.all_takeWhile
  · intro line hline
    exact List.all_eq_true.1 List.all_takeWhile line (List.mem_reverse.1 hline)

theorem mem_lines_of_mem_coreLines {statements line : Text} (hline : line ∈ coreLines statements) :
    line ∈ Text.lines statements := by
  obtain ⟨before, behind, hlines, -⟩ := exists_lines_eq statements
  rw [hlines]
  exact List.mem_append_right before (List.mem_append_left behind hline)

/-- The indentation found is spaces and tabs, whatever the lines begin with. -/
theorem isIndent_of_mem_base (statements : Text) : ∀ c ∈ base statements, isIndent c = true := by
  unfold base
  split
  · exact List.all_eq_true.1 List.all_takeWhile
  · simp

theorem isBlank_of_isIndent {c : Char} (hc : isIndent c = true) : isBlank c = true := by
  simp only [isIndent, Bool.or_eq_true, decide_eq_true_eq] at hc
  rcases hc with rfl | rfl <;> decide

/-- Two lines are the same behind white space that each begins with. -/
def SameBehindBlanks (line line' : Text) : Prop :=
  ∃ blanks blanks' rest, (∀ c ∈ blanks, isBlank c = true) ∧ (∀ c ∈ blanks', isBlank c = true) ∧
    line = blanks ++ rest ∧ line' = blanks' ++ rest

/-- A line set anew is the same behind its indentation. -/
theorem sameBehindBlanks_shift {oldIndent newIndent : Text}
    (hold : ∀ c ∈ oldIndent, isIndent c = true) (hnew : ∀ c ∈ newIndent, isIndent c = true)
    (line : Text) :
    SameBehindBlanks line (shift oldIndent newIndent line) := by
  have hsame : SameBehindBlanks line line := ⟨[], [], line, by simp, by simp, rfl, rfl⟩
  unfold shift
  split
  · exact hsame
  · split
    · next rest hrest =>
      exact ⟨oldIndent, newIndent, rest, fun c hc => isBlank_of_isIndent (hold c hc),
        fun c hc => isBlank_of_isIndent (hnew c hc), Text.eq_append_of_after? hrest, rfl⟩
    · exact hsame

theorem not_mem_shift {c : Char} {oldIndent newIndent line : Text} (hnew : c ∉ newIndent)
    (hc : c ∉ line) :
    c ∉ shift oldIndent newIndent line := by
  unfold shift
  split
  · exact hc
  · split
    · next rest hrest =>
      rw [Text.eq_append_of_after? hrest] at hc
      intro hmem
      rcases List.mem_append.1 hmem with hmem | hmem
      · exact hnew hmem
      · exact hc (List.mem_append_right oldIndent hmem)
    · exact hc

/-- A line that is not blank does not become blank. -/
theorem isBlankLine_shift {oldIndent line : Text} (newIndent : Text)
    (hold : ∀ c ∈ oldIndent, isIndent c = true)
    (hline : isBlankLine line = false) : isBlankLine (shift oldIndent newIndent line) = false := by
  unfold shift
  split
  · exact hline
  · split
    · next rest hrest =>
      rw [Text.eq_append_of_after? hrest, isBlankLine, List.all_append] at hline
      have hindent : oldIndent.all isBlank = true :=
        List.all_eq_true.2 fun c hc => isBlank_of_isIndent (hold c hc)
      rw [hindent, Bool.true_and] at hline
      rw [isBlankLine, List.all_append, hline, Bool.and_false]
    · exact hline

theorem exists_visible_of_coreLines {statements : Text} (hcore : coreLines statements ≠ []) :
    ∃ line ∈ coreLines statements, isBlankLine line = false := by
  have hne : ((Text.lines statements).dropWhile isBlankLine).reverse.dropWhile isBlankLine ≠
    [] := by
    rwa [coreLines, Ne, List.reverse_eq_nil_iff] at hcore
  refine ⟨_, List.mem_reverse.2 (List.head_mem hne), ?_⟩
  have hhead := List.head_dropWhile_not isBlankLine hne
  simpa using hhead

/-- There is no core exactly if all is white space. -/
theorem coreLines_eq_nil_iff {statements : Text} :
    coreLines statements = [] ↔ ∀ c ∈ statements, isBlank c = true := by
  rw [← Text.withoutBlanks_eq_nil_iff, ← Text.flatMap_withoutBlanks_lines]
  constructor
  · intro hcore
    obtain ⟨before, behind, hlines, hbefore, hbehind⟩ := exists_lines_eq statements
    rw [hcore, List.nil_append] at hlines
    rw [List.flatMap_eq_nil_iff, hlines]
    intro line hline
    exact Text.withoutBlanks_eq_nil_iff.2
      (isBlankLine_iff.1 ((List.mem_append.1 hline).elim (hbefore line) (hbehind line)))
  · intro hnone
    by_contra hcore
    obtain ⟨line, hmem, hvisible⟩ := exists_visible_of_coreLines hcore
    have hline := List.flatMap_eq_nil_iff.1 hnone line (mem_lines_of_mem_coreLines hmem)
    rw [isBlankLine_iff.2 (Text.withoutBlanks_eq_nil_iff.1 hline)] at hvisible
    exact absurd hvisible (by decide)

theorem ne_nil_of_mem_intercalate {sep : Text} {ls : List Text} {line : Text} (hmem : line ∈ ls)
    (hline : line ≠ []) :
    sep.intercalate ls ≠ [] := by
  intro hnil
  have hne : ls ≠ [] := List.ne_nil_of_mem hmem
  have hsublist : (line ++ sep).Sublist (ls.flatMap (· ++ sep)) :=
    List.sublist_flatten_of_mem (List.mem_map_of_mem hmem)
  have hlength := hsublist.length_le
  rw [← Text.intercalate_append hne, hnil, List.nil_append, List.length_append] at hlength
  exact hline (List.eq_nil_of_length_eq_zero (by omega))

/-- Statements with anything but white space do not become empty. -/
theorem reindent_ne_nil {statements newIndent lineEnding : Text}
    (hcore : coreLines statements ≠ []) :
    reindent statements newIndent lineEnding ≠ [] := by
  obtain ⟨line, hmem, hvisible⟩ := exists_visible_of_coreLines hcore
  have hshift := isBlankLine_shift newIndent (isIndent_of_mem_base statements) hvisible
  refine ne_nil_of_mem_intercalate (List.mem_map_of_mem hmem) ?_
  intro hnil
  rw [hnil] at hshift
  exact absurd hshift (by decide)

/-- Any line gap may take the place of any: re-indentation changes line breaks
    and the white space around them, and the scanner is indifferent to both. -/
def anySpacing : Spacing where
  Rel gap gap' := IsLineGap gap ∧ IsLineGap gap'
  isLineGap h := h

theorem isLineGap_of_isBreak {lineBreak : Text} (h : IsBreak lineBreak) : IsLineGap lineBreak := by
  rcases h with rfl | rfl
  · exact ⟨[], [], Or.inl rfl, by simp, rfl⟩
  · exact ⟨['\r'], [], Or.inr rfl, by simp, rfl⟩

theorem isLineGap_append {gap blanks : Text} (h : IsLineGap gap)
    (hblanks : ∀ c ∈ blanks, isBlank c = true) :
    IsLineGap (gap ++ blanks) := by
  obtain ⟨ret, more, hret, hmore, rfl⟩ := h
  refine ⟨ret, more ++ blanks, hret, ?_, by simp⟩
  intro c hc
  rcases List.mem_append.1 hc with hc | hc
  · exact hmore c hc
  · exact hblanks c hc

/-- A line that does not end with a backslash may stand before a line gap.
    Behind a backslash the scanner would skip a different character in the two
    texts. -/
theorem respaced_line {spacing : Spacing} {escaped : Bool} {line t t' : Text}
    (hescaped : escaped = true → line ≠ []) (hfeed : '\n' ∉ line)
    (hescape : line.getLast? ≠ some '\\') (h : Respaced spacing false t t') :
    Respaced spacing escaped (line ++ t) (line ++ t') := by
  induction line generalizing escaped with
  | nil =>
    cases escaped with
    | false => exact h
    | true => exact absurd rfl (hescaped rfl)
  | cons c line ih =>
    have hc : c ≠ '\n' := fun heq => hfeed (heq ▸ List.mem_cons_self)
    refine .char hc (ih ?_ (fun hmem => hfeed (List.mem_cons_of_mem c hmem)) ?_)
    · rintro hbackslash rfl
      exact hescape (by rw [of_decide_eq_true hbackslash]; rfl)
    · cases line with
      | nil => simp
      | cons d line => rwa [List.getLast?_cons_cons] at hescape

/-- Lines that are the same behind the white space that they begin with,
    between line gaps. What follows is respaced by `hrest`, and no line may end
    with a backslash. -/
theorem respaced_lined {gap gap' t t' blanks blanks' rest rest' : Text} {ls ls' : List Text}
    (ht : Lined ls t) (ht' : Lined ls' t') (hlines : List.Forall₂ SameBehindBlanks ls ls')
    (hescape : ∀ line ∈ ls, line.getLast? ≠ some '\\') (hgap : IsLineGap gap)
    (hgap' : IsLineGap gap') (hblanks : ∀ c ∈ blanks, isBlank c = true)
    (hblanks' : ∀ c ∈ blanks', isBlank c = true) (hrest : Respaced anySpacing false rest rest') :
    Respaced anySpacing false (gap ++ (t ++ (blanks ++ rest)))
      (gap' ++ (t' ++ (blanks' ++ rest'))) := by
  induction ht generalizing gap gap' t' ls' with
  | nil =>
    cases hlines
    cases ht'
    rw [List.nil_append, List.nil_append, ← List.append_assoc, ← List.append_assoc]
    exact .gap ⟨isLineGap_append hgap hblanks, isLineGap_append hgap' hblanks'⟩ hrest
  | @line line lineBreak t ls hfeed hbreak _ ih =>
    cases hlines with
    | cons hsame hothers =>
      cases ht' with
      | @line line' lineBreak' t' ls' hfeed' hbreak' ht' =>
        obtain ⟨old, new, x, hold, hnew, rfl, rfl⟩ := hsame
        have hbehind :=
          ih ht' hothers (fun other hother => hescape other (List.mem_cons_of_mem _ hother))
            (isLineGap_of_isBreak hbreak) (isLineGap_of_isBreak hbreak')
        have hx : x.getLast? ≠ some '\\' := by
          intro hlast
          apply hescape (old ++ x) List.mem_cons_self
          rw [List.getLast?_append, hlast, Option.some_or]
        have hline : Respaced anySpacing false (x ++ _) (x ++ _) :=
          respaced_line (fun hfalse => absurd hfalse (by decide))
            (fun hmem => hfeed (List.mem_append_right old hmem))
            hx hbehind
        have hgaps : anySpacing.Rel (gap ++ old) (gap' ++ new) :=
          ⟨isLineGap_append hgap hold, isLineGap_append hgap' hnew⟩
        simpa using Respaced.gap hgaps hline

/-- The statements between line breaks, set anew: each line of the core with a
    line break behind it, and the indentation of what closes. -/
def enclosed (statements newIndent lineEnding closeIndent : Text) : Text :=
  lineEnding ++
    (((coreLines statements).map (shift (base statements) newIndent)).flatMap (· ++ lineEnding) ++
    closeIndent)

theorem passes_blanks {blanks : Text} (hblanks : ∀ c ∈ blanks, isBlank c = true) (t : Text) :
    Passes '{' '}' (blanks ++ t) t := by
  refine .of_code (reads_of_isInert (fun c hc => isInert_of (by decide) (hblanks c hc)) t) ?_ ?_
  · exact fun hmem => absurd (hblanks _ hmem) (by decide)
  · exact fun hmem => absurd (hblanks _ hmem) (by decide)

/-- White space may stand around statements without changing which brace is
    closed. -/
theorem closes_padded {statements rest before behind : Text} (h : Closes '{' '}' statements rest)
    (hbefore : ∀ c ∈ before, isBlank c = true) (hbehind : ∀ c ∈ behind, isBlank c = true)
    (other : Text) :
    Closes '{' '}' (before ++ (statements ++ behind)) other := by
  have hplain : ∀ c ∈ (behind ++ '}' :: other).head?, IsPlain c := by
    intro c hc
    cases behind with
    | nil =>
      obtain rfl := Option.some.inj hc
      decide
    | cons d behind =>
      obtain rfl := Option.some.inj hc
      exact not_mem_of_all (by decide) (hbehind d List.mem_cons_self)
  have hyields : YieldsTo ('}' :: rest) (behind ++ '}' :: other) :=
    ⟨beginsNoMore_of_isPlain hplain, fun hend => absurd (hend '}' rfl) (by decide)⟩
  have hstatements := (closes_iff_passes (by decide)).1 h
  rw [closes_iff_passes (by decide)]
  have hpasses := (passes_blanks hbefore _).trans
    ((hstatements.exchange (by simp) hyields).trans (passes_blanks hbehind ('}' :: other)))
  simpa using hpasses

/-- The statements set anew are the statements with other line gaps, between
    the brace in front and the brace that closes. -/
theorem respaced_enclosed {statements newIndent lineEnding closeIndent : Text}
    (hescape : ∀ line ∈ Text.lines statements, line.getLast? ≠ some '\\')
    (hnew : ∀ c ∈ newIndent, isIndent c = true) (heol : IsBreak lineEnding)
    (hclose : ∀ c ∈ closeIndent, isIndent c = true) :
    Respaced anySpacing false (lineEnding ++ (statements ++ (lineEnding ++ closeIndent)) ++ ['}'])
      (enclosed statements newIndent lineEnding closeIndent ++ ['}']) := by
  obtain ⟨t, ends, hlined, hends, ht⟩ := Text.exists_lined heol statements
  obtain ⟨before, behind, hlines, hbefore, hbehind⟩ := exists_lines_eq statements
  rw [hlines] at hlined
  obtain ⟨u, v, rfl, hu, hv⟩ := hlined.exists_append
  obtain ⟨v, w, rfl, hv, hw⟩ := hv.exists_append
  have hblanks : ∀ c ∈ w ++ (ends ++ closeIndent), isBlank c = true := by
    intro c hc
    simp only [List.mem_append] at hc
    rcases hc with hc | hc | hc
    · exact hw.isBlank hbehind c hc
    · exact hends c hc
    · exact isBlank_of_isIndent (hclose c hc)
  have hset : Lined ((coreLines statements).map (shift (base statements) newIndent))
      (((coreLines statements).map (shift (base statements) newIndent)).flatMap
        (· ++ lineEnding)) := by
    refine Text.lined_flatMap heol fun line hline => ?_
    obtain ⟨line, hmem, rfl⟩ := List.mem_map.1 hline
    exact not_mem_shift (fun hfeed => absurd (hnew _ hfeed) (by decide)) (hv.not_mem line hmem)
  have hsame : List.Forall₂ SameBehindBlanks (coreLines statements)
      ((coreLines statements).map (shift (base statements) newIndent)) := by
    rw [List.forall₂_map_right_iff, List.forall₂_same]
    exact fun line _ => sameBehindBlanks_shift (isIndent_of_mem_base statements) hnew line
  have hbrace : Respaced anySpacing false ['}'] ['}'] := .char (by decide) .nil
  have hrespaced :=
    respaced_lined hv hset hsame (fun line hline => hescape line (mem_lines_of_mem_coreLines hline))
      (isLineGap_append (isLineGap_of_isBreak heol) (hu.isBlank hbefore))
        (isLineGap_of_isBreak heol) hblanks
      (fun c hc => isBlank_of_isIndent (hclose c hc)) hbrace
  have hpadded : lineEnding ++ (statements ++ (lineEnding ++ closeIndent)) ++ ['}'] =
      lineEnding ++ u ++ (v ++ (w ++ (ends ++ closeIndent) ++ ['}'])) := by
    rw [← List.append_assoc statements, ht]
    simp
  rw [hpadded, enclosed]
  simpa using hrespaced

/-- Set anew, statements close a brace where they did before, unless one of
    their lines ends with a backslash. Then the scanner skips the character
    behind the backslash, which re-indentation may change. -/
theorem closes_enclosed {statements rest newIndent lineEnding closeIndent : Text}
    (h : Closes '{' '}' statements rest)
    (hescape : ∀ line ∈ Text.lines statements, line.getLast? ≠ some '\\')
    (hnew : ∀ c ∈ newIndent, isIndent c = true) (heol : IsBreak lineEnding)
    (hclose : ∀ c ∈ closeIndent, isIndent c = true) (other : Text) :
    Closes '{' '}' (enclosed statements newIndent lineEnding closeIndent) other := by
  have hpadding : ∀ c ∈ lineEnding ++ closeIndent, isBlank c = true := by
    intro c hc
    rcases List.mem_append.1 hc with hc | hc
    · exact heol.isBlank c hc
    · exact isBlank_of_isIndent (hclose c hc)
  have hpadded := closes_padded h heol.isBlank hpadding []
  obtain ⟨inside, rest', hcloses, hrest⟩ :=
    (respaced_enclosed hescape hnew heol hclose).exists_closesAfter (by decide)
      (by decide) (by decide) hpadded
  obtain rfl : rest' = [] := hrest.eq_nil rfl
  obtain rfl : enclosed statements newIndent lineEnding closeIndent = inside :=
    List.append_cancel_right hcloses.text_eq
  have hclosed : Closes '{' '}' (enclosed statements newIndent lineEnding closeIndent) [] := hcloses
  exact hclosed.exchange (by decide) other

end Indent

end EntitySplit
