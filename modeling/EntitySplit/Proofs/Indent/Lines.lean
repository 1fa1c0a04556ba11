import EntitySplit.Proofs.Indent
import EntitySplit.Proofs.Text.Joined

namespace EntitySplit

namespace Indent

open Text (IsBreak isBlank isIndent)

section

variable {statements oldIndent newIndent line lineEnding : Text}

/-- `core` holds the lines from the first to the last that is not blank. There
    are no such lines if all are blank. -/
def IsCore (ls core : List Text) : Prop :=
  ∃ before behind, ls = before ++ (core ++ behind) ∧
    (∀ line ∈ before ++ behind, isBlankLine line = true) ∧
    (∀ line ∈ core.head?, isBlankLine line = false) ∧
      ∀ line ∈ core.getLast?, isBlankLine line = false

/-- The lines that re-indentation works on are the core of the statements. -/
theorem isCore_coreLines (statements : Text) :
    IsCore (Text.lines statements) (coreLines statements) := by
  obtain ⟨before, behind, hlines, hbefore, hbehind⟩ := exists_lines_eq statements
  refine ⟨before, behind, hlines, List.forall_mem_append.2 ⟨hbefore, hbehind⟩, ?_, ?_⟩
  · intro line hline
    have hhead := List.head?_dropWhile_not isBlankLine (Text.lines statements)
    have hfrom : (Text.lines statements).dropWhile isBlankLine = coreLines statements ++
        (((Text.lines statements).dropWhile isBlankLine).reverse.takeWhile
          isBlankLine).reverse := by
      rw [coreLines, ← List.reverse_append, List.takeWhile_append_dropWhile, List.reverse_reverse]
    rw [hfrom, List.head?_append, Option.mem_def.1 hline, Option.some_or] at hhead
    simpa using hhead
  · intro line hline
    have hlast :=
      List.head?_dropWhile_not isBlankLine ((Text.lines statements).dropWhile isBlankLine).reverse
    rw [coreLines, List.getLast?_reverse] at hline
    rw [Option.mem_def.1 hline] at hlast
    simpa using hlast

/-- Lines that begin and end with one that is not blank are a core themselves.
    This is the case after re-indentation. -/
theorem coreLines_eq_lines
    (hfirst : ∀ line ∈ (Text.lines statements).head?, isBlankLine line = false)
    (hlast : ∀ line ∈ (Text.lines statements).getLast?, isBlankLine line = false) :
    coreLines statements = Text.lines statements := by
  have hdrop {ls : List Text} (hhead : ∀ line ∈ ls.head?, isBlankLine line = false) :
      ls.dropWhile isBlankLine = ls := by
    cases ls with
    | nil => rfl
    | cons line ls => exact List.dropWhile_cons_of_neg (by simp [hhead line rfl])
  rw [coreLines, hdrop hfirst, hdrop (by rwa [List.head?_reverse]), List.reverse_reverse]

/-- The indentation is that of the first line that is not blank, whatever the
    others have. -/
theorem base_of_coreLines {first : Text} {others : List Text}
    (hcore : coreLines statements = first :: others) :
    base statements = first.takeWhile isIndent := by
  obtain ⟨before, behind, hlines, hblank, hfirst, -⟩ := isCore_coreLines statements
  rw [hcore] at hlines hfirst
  have hvisible := hfirst first rfl
  have hnone : before.find? (!isBlankLine ·) = none := by
    rw [List.find?_eq_none]
    intro line hline
    simp [hblank line (List.mem_append_left behind hline)]
  have hfound : (Text.lines statements).find? (!isBlankLine ·) = some first := by
    rw [hlines, List.find?_append, hnone, List.cons_append,
      List.find?_cons_of_pos (by simp [hvisible]), Option.none_or]
  rw [base, hfound]

/-- What a line comes out as: with `newIndent` for `oldIndent` if it has that
    and is not blank, else as it is. -/
inductive ComesOut (oldIndent newIndent : Text) : (line out : Text) → Prop where
  | shifted {rest : Text} (hvisible : isBlankLine (oldIndent ++ rest) = false) :
      ComesOut oldIndent newIndent (oldIndent ++ rest) (newIndent ++ rest)
  | blank {line : Text} (hblank : isBlankLine line = true) : ComesOut oldIndent newIndent line line
  | without {line : Text} (hindent : ¬oldIndent <+: line) : ComesOut oldIndent newIndent line line

theorem comesOut_shift (oldIndent newIndent line : Text) :
    ComesOut oldIndent newIndent line (shift oldIndent newIndent line) := by
  unfold shift
  split
  · next hblank => exact .blank hblank
  · next hvisible =>
    rw [Bool.not_eq_true] at hvisible
    split
    · next rest hrest =>
      obtain rfl := Text.eq_append_of_after? hrest
      exact .shifted hvisible
    · next hnone => exact .without (Text.after?_eq_none_iff.1 hnone)

theorem shift_indented (newIndent : Text) {rest : Text}
    (hvisible : isBlankLine (oldIndent ++ rest) = false) :
    shift oldIndent newIndent (oldIndent ++ rest) = newIndent ++ rest := by
  rw [shift, if_neg (by simp [hvisible]), Text.after?_append]

theorem shift_of_isBlankLine (oldIndent newIndent : Text) (hblank : isBlankLine line = true) :
    shift oldIndent newIndent line = line :=
  if_pos hblank

/-- Another indentation changes white space only. Both have to be spaces and
    tabs, or characters of the line could be lost or added. -/
theorem withoutBlanks_shift (hold : ∀ c ∈ oldIndent, isIndent c = true)
    (hnew : ∀ c ∈ newIndent, isIndent c = true) (line : Text) :
    Text.withoutBlanks (shift oldIndent newIndent line) = Text.withoutBlanks line := by
  obtain ⟨blanks, blanks', rest, hblanks, hblanks', hline, hshift⟩ :=
    sameBehindBlanks_shift hold hnew line
  rw [hshift, hline, Text.withoutBlanks_append, Text.withoutBlanks_append,
    Text.withoutBlanks_eq_nil_iff.2 hblanks, Text.withoutBlanks_eq_nil_iff.2 hblanks']

/-- Re-indentation neither loses nor adds anything but white space. -/
theorem withoutBlanks_reindent (hnew : ∀ c ∈ newIndent, isIndent c = true)
    (heol : IsBreak lineEnding) (statements : Text) :
    Text.withoutBlanks (reindent statements newIndent lineEnding) =
      Text.withoutBlanks statements := by
  have hblank {ls : List Text} (hls : ∀ line ∈ ls, isBlankLine line = true) :
    ls.flatMap Text.withoutBlanks = [] :=
    List.flatMap_eq_nil_iff.2 fun line hline =>
      Text.withoutBlanks_eq_nil_iff.2 (isBlankLine_iff.1 (hls line hline))
  obtain ⟨before, behind, hlines, hbefore, hbehind⟩ := exists_lines_eq statements
  rw [reindent, Text.withoutBlanks_intercalate heol.isBlank, List.flatMap_map,
    ← Text.flatMap_withoutBlanks_lines statements, hlines, List.flatMap_append, List.flatMap_append,
    hblank hbefore, hblank hbehind, List.nil_append, List.append_nil]
  simp only [withoutBlanks_shift (isIndent_of_mem_base statements) hnew]

/-- Nothing is left exactly of statements that are all white space. -/
theorem reindent_eq_nil_iff :
    reindent statements newIndent lineEnding = [] ↔ ∀ c ∈ statements, isBlank c = true := by
  rw [← coreLines_eq_nil_iff]
  constructor
  · intro hnil
    by_contra hcore
    exact reindent_ne_nil hcore hnil
  · intro hcore
    rw [reindent, hcore]
    rfl

/-- A line keeps what it begins with when it loses a carriage return at its
    end. -/
theorem prefix_dropReturn {head rest : Text} (hrest : rest ≠ []) :
    head <+: Text.dropReturn (head ++ rest) := by
  unfold Text.dropReturn
  split
  · rw [List.dropLast_append_of_ne_nil hrest]
    exact List.prefix_append _ _
  · exact List.prefix_append _ _

/-- The first line of joined lines begins as the first of them does. `rest` may
    not be empty, as a carriage return at the end of the head would be taken
    for a part of the line break. -/
theorem exists_lines_intercalate {head rest : Text} (heol : IsBreak lineEnding)
    (hfeed : '\n' ∉ head ++ rest) (hrest : rest ≠ []) (others : List Text) : ∃ first more,
      Text.lines (lineEnding.intercalate ((head ++ rest) :: others)) = first :: more ∧
        head <+: first := by
  cases others with
  | nil =>
    refine ⟨head ++ rest, [], ?_, List.prefix_append _ _⟩
    rw [List.intercalate_singleton, Text.lines_of_not_mem hfeed, if_neg (by simp [hrest])]
  | cons other others =>
    obtain ⟨ret, hret, rfl⟩ := heol.exists_return
    have hfeed' : '\n' ∉ head ++ (rest ++ ret) := by
      rw [← List.append_assoc, List.mem_append, not_or]
      exact ⟨hfeed, hret⟩
    refine ⟨Text.dropReturn (head ++ (rest ++ ret)),
      Text.lines ((ret ++ ['\n']).intercalate (other :: others)), ?_,
      prefix_dropReturn (by simp [hrest])⟩
    rw [List.intercalate_cons_cons, ← Text.lines_append_feed hfeed']
    simp

/-- The first line of the core is the indentation and a rest that does not
    begin with a space or tab. -/
theorem exists_first {first : Text} {others : List Text}
    (hcore : coreLines statements = first :: others) :
    ∃ rest, first = base statements ++ rest ∧ isBlankLine (base statements ++ rest) = false ∧
      rest ≠ [] ∧
      ∀ c ∈ rest.head?, isIndent c = false := by
  obtain ⟨-, -, -, -, hfirst, -⟩ := isCore_coreLines statements
  rw [hcore] at hfirst
  have hbase := base_of_coreLines hcore
  have hsplit : first = base statements ++ first.dropWhile isIndent := by
    rw [hbase, List.takeWhile_append_dropWhile]
  have hvisible : isBlankLine (base statements ++ first.dropWhile isIndent) = false := by
    rw [← hsplit]
    exact hfirst first rfl
  refine ⟨first.dropWhile isIndent, hsplit, hvisible, ?_, ?_⟩
  · intro hnil
    rw [hnil, List.append_nil,
      isBlankLine_iff.2 fun c hc => isBlank_of_isIndent (isIndent_of_mem_base _ c hc)]
      at hvisible
    exact absurd hvisible (by decide)
  · intro c hc
    have hstop := List.head?_dropWhile_not isIndent first
    rw [Option.mem_def.1 hc] at hstop
    simpa using hstop

/-- The first line set anew begins with the new indentation, if there is a line
    that is not blank. -/
theorem exists_lines_reindent (hnew : ∀ c ∈ newIndent, isIndent c = true)
    (heol : IsBreak lineEnding) (hvisible : ∃ c ∈ statements, isBlank c = false) : ∃ first others,
      Text.lines (reindent statements newIndent lineEnding) = first :: others ∧
        newIndent <+: first := by
  obtain ⟨c, hc, hvisible⟩ := hvisible
  have hcore : coreLines statements ≠ [] := by
    intro hcore
    rw [coreLines_eq_nil_iff.1 hcore c hc] at hvisible
    exact absurd hvisible (by decide)
  obtain ⟨line, others, hcore⟩ := List.exists_cons_of_ne_nil hcore
  obtain ⟨rest, rfl, hfirst, hrest, -⟩ := exists_first hcore
  have hfeed : '\n' ∉ newIndent ++ rest := by
    have hline :=
      Text.feed_not_mem_of_mem_lines (mem_lines_of_mem_coreLines (hcore ▸ List.mem_cons_self))
    rw [List.mem_append, not_or]
    exact ⟨fun hmem => absurd (hnew _ hmem) (by decide),
      fun hmem => hline (List.mem_append_right _ hmem)⟩
  rw [reindent, hcore, List.map_cons, shift_indented newIndent hfirst]
  exact exists_lines_intercalate heol hfeed hrest _

/-- Nothing but white space is lost or added, the first line begins with the
    new indentation, and of the lines from the first to the last that is not
    blank each comes out in its place. Nothing is asked of the statements,
    which may have uneven lines and line breaks of both kinds. -/
theorem reindent_keeps_lines (statements : Text) (hnew : ∀ c ∈ newIndent, isIndent c = true)
    (heol : IsBreak lineEnding) :
    Text.withoutBlanks (reindent statements newIndent lineEnding) = Text.withoutBlanks statements ∧
    (reindent statements newIndent lineEnding = [] ↔ ∀ c ∈ statements, isBlank c = true) ∧
    ((∃ c ∈ statements, isBlank c = false) → ∃ first others,
      Text.lines (reindent statements newIndent lineEnding) = first :: others ∧
        newIndent <+: first) ∧
    ∃ core outs, IsCore (Text.lines statements) core ∧
      List.Forall₂ (ComesOut (base statements) newIndent) core outs ∧
      reindent statements newIndent lineEnding = lineEnding.intercalate outs := by
  refine ⟨withoutBlanks_reindent hnew heol statements, reindent_eq_nil_iff,
    exists_lines_reindent hnew heol, ?_⟩
  refine ⟨coreLines statements, _, isCore_coreLines statements, ?_, rfl⟩
  rw [List.forall₂_map_right_iff, List.forall₂_same]
  exact fun line _ => comesOut_shift (base statements) newIndent line

/-- A blank line that has the indentation, a line without it and a last line
    that ends with a carriage return. The first begins with the new indentation
    all the same. -/
theorem reindent_keeps_lines_uneven :
    Text.withoutBlanks (reindent "\n  a(\r\n  \n b);\r\n   c\r".toList ['\t'] ['\r', '\n']) =
      "a(b);c".toList ∧
      ∃ first others,
        Text.lines (reindent "\n  a(\r\n  \n b);\r\n   c\r".toList ['\t'] ['\r', '\n']) =
        first :: others ∧ ['\t'] <+: first := by
  obtain ⟨hkept, -, hfirst, -⟩ := reindent_keeps_lines "\n  a(\r\n  \n b);\r\n   c\r".toList
    (by decide : ∀ c ∈ ['\t'], isIndent c = true) (Or.inr rfl : IsBreak ['\r', '\n'])
  exact ⟨hkept.trans (by decide +kernel), hfirst ⟨'a', by decide +kernel, by decide⟩⟩

theorem shift_self (indent line : Text) : shift indent indent line = line := by
  have hout := comesOut_shift indent indent line
  generalize shift indent indent line = out at hout
  cases hout with
  | shifted => rfl
  | blank => rfl
  | without => rfl

/-- Setting a line anew twice is setting it anew once, if it had the
    indentation to begin with. A line without it could have the one in the
    middle. -/
theorem shift_shift {middleIndent : Text} (hold : ∀ c ∈ oldIndent, isIndent c = true)
    (hindent : isBlankLine line = false → oldIndent <+: line) :
    shift middleIndent newIndent (shift oldIndent middleIndent line) =
      shift oldIndent newIndent line := by
  cases hline : isBlankLine line with
  | true =>
    rw [shift_of_isBlankLine _ _ hline, shift_of_isBlankLine _ _ hline,
      shift_of_isBlankLine _ _ hline]
  | false =>
    obtain ⟨rest, rfl⟩ := hindent hline
    have hshifted := isBlankLine_shift middleIndent hold hline
    rw [shift_indented middleIndent hline] at hshifted ⊢
    rw [shift_indented newIndent hshifted, shift_indented newIndent hline]

section

variable (hreturns : Text.ReturnsBeforeFeeds statements) (hnew : ∀ c ∈ newIndent, isIndent c = true)
  (heol : IsBreak lineEnding)

include hreturns hnew heol

/-- The lines of statements that were set anew are those of the core, set anew.
    They are read back from the joined text because no carriage return stands
    within them. -/
theorem lines_reindent : Text.lines (reindent statements newIndent lineEnding) =
    (coreLines statements).map (shift (base statements) newIndent) := by
  have hnot {c : Char} (hc : isIndent c = false) : c ∉ newIndent := fun hmem => by
    simp [hnew c hmem] at hc
  refine Text.lines_intercalate heol ?_ ?_ ?_
  · rw [List.forall_mem_map]
    intro line hline
    exact not_mem_shift (hnot (by decide))
      (Text.feed_not_mem_of_mem_lines (mem_lines_of_mem_coreLines hline))
  · rw [List.forall_mem_map]
    intro line hline
    exact not_mem_shift (hnot (by decide))
      (Text.return_not_mem_of_mem_lines hreturns line (mem_lines_of_mem_coreLines hline))
  · intro hlast
    obtain ⟨-, -, -, -, -, hvisible⟩ := isCore_coreLines statements
    rw [List.getLast?_map, Option.map_eq_some_iff] at hlast
    obtain ⟨line, hline, hnil⟩ := hlast
    have hshift :=
      isBlankLine_shift newIndent (isIndent_of_mem_base statements) (hvisible line hline)
    rw [hnil] at hshift
    exact absurd hshift (by decide)

/-- The core of statements that were set anew is all of their lines. -/
theorem coreLines_reindent : coreLines (reindent statements newIndent lineEnding) =
    (coreLines statements).map (shift (base statements) newIndent) := by
  obtain ⟨-, -, -, -, hfirst, hlast⟩ := isCore_coreLines statements
  have hvisible {line : Text} (hline : isBlankLine line = false) :
      isBlankLine (shift (base statements) newIndent line) = false :=
    isBlankLine_shift newIndent (isIndent_of_mem_base statements) hline
  rw [← lines_reindent hreturns hnew heol]
  apply coreLines_eq_lines
  · rw [lines_reindent hreturns hnew heol, List.head?_map]
    intro line hline
    obtain ⟨kept, hkept, rfl⟩ := Option.map_eq_some_iff.1 hline
    exact hvisible (hfirst kept hkept)
  · rw [lines_reindent hreturns hnew heol, List.getLast?_map]
    intro line hline
    obtain ⟨kept, hkept, rfl⟩ := Option.map_eq_some_iff.1 hline
    exact hvisible (hlast kept hkept)

/-- The indentation found in statements that were set anew is the one they were
    given, since a rest behind the old one begins with neither space nor tab. -/
theorem base_reindent (hcore : coreLines statements ≠ []) :
    base (reindent statements newIndent lineEnding) = newIndent := by
  obtain ⟨first, others, hcore⟩ := List.exists_cons_of_ne_nil hcore
  have hlines := coreLines_reindent hreturns hnew heol
  rw [hcore, List.map_cons] at hlines
  obtain ⟨rest, hfirst, hvisible, -, hrest⟩ := exists_first hcore
  rw [base_of_coreLines hlines, hfirst, shift_indented newIndent hvisible]
  exact Text.takeWhile_run_append hnew hrest

/-- Set anew once more, statements stay as they are; where every line had the
    indentation, they come out as if they had not been set anew before, and
    with their own indentation as they were. The premises of the section are
    that carriage returns stand only before line feeds, that the indentation is
    spaces and tabs, and that lines are joined with a line break. -/
theorem reindent_reindent :
    reindent (reindent statements newIndent lineEnding) newIndent lineEnding =
      reindent statements newIndent lineEnding ∧
    ((∀ line ∈ Text.lines statements, isBlankLine line = false → base statements <+: line) →
      ∀ otherIndent otherEnding,
        reindent (reindent statements newIndent lineEnding) otherIndent otherEnding =
          reindent statements otherIndent otherEnding ∧
        reindent (reindent statements newIndent lineEnding) (base statements) otherEnding =
          otherEnding.intercalate (coreLines statements)) := by
  have hset (otherIndent otherEnding : Text) :
      reindent (reindent statements newIndent lineEnding) otherIndent otherEnding =
        otherEnding.intercalate
        ((coreLines statements).map fun line =>
          shift newIndent otherIndent (shift (base statements) newIndent line)) := by
    rw [reindent, coreLines_reindent hreturns hnew heol, List.map_map]
    by_cases hcore : coreLines statements = []
    · rw [hcore, List.map_nil, List.map_nil]
    · rw [base_reindent hreturns hnew heol hcore]
      rfl
  refine ⟨?_, fun hindent otherIndent otherEnding => ?_⟩
  · simp only [hset, shift_self]
    rw [reindent]
  · have hlines (otherIndent : Text) : (coreLines statements).map (fun line =>
        shift newIndent otherIndent (shift (base statements) newIndent line)) =
          (coreLines statements).map (shift (base statements) otherIndent) :=
      List.map_congr_left fun line hline =>
        shift_shift (isIndent_of_mem_base statements)
          (hindent line (mem_lines_of_mem_coreLines hline))
    constructor
    · rw [hset, hlines, reindent]
    · rw [hset, hlines, funext (shift_self (base statements)), List.map_id']

end

/-- Two lines set anew with a tab and then restored, with the line breaks that
    they had. -/
theorem reindent_reindent_restored :
    reindent (reindent "  a(\r\n    b);\n".toList ['\t'] ['\n']) ['\t']
      ['\n'] = "\ta(\n\t  b);".toList ∧
      reindent (reindent "  a(\r\n    b);\n".toList ['\t'] ['\n']) [' ', ' '] ['\r', '\n'] =
        "  a(\r\n    b);".toList := by
  have hbase : base "  a(\r\n    b);\n".toList = [' ', ' '] := by decide +kernel
  obtain ⟨hagain, hrestored⟩ := reindent_reindent
    (by decide +kernel : Text.ReturnsBeforeFeeds "  a(\r\n    b);\n".toList)
    (by decide : ∀ c ∈ ['\t'], isIndent c = true) (Or.inl rfl : IsBreak ['\n'])
  refine ⟨hagain.trans (by decide +kernel), ?_⟩
  rw [← hbase, (hrestored (by decide +kernel) [] ['\r', '\n']).2]
  decide +kernel

end

end Indent

end EntitySplit
