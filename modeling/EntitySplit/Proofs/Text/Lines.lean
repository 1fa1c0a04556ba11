import EntitySplit.Indent
import EntitySplit.Proofs.Text.Blank

namespace EntitySplit

namespace Text

/-- A line break, with or without a carriage return. -/
def IsBreak (t : Text) : Prop :=
  t = ['\n'] ∨ t = ['\r', '\n']

theorem IsBreak.isBlank {t : Text} (h : IsBreak t) : ∀ c ∈ t, Text.isBlank c = true := by
  rcases h with rfl | rfl
  · exact List.all_eq_true.1 (by decide)
  · exact List.all_eq_true.1 (by decide)

theorem IsBreak.exists_return {t : Text} (h : IsBreak t) :
    ∃ ret, '\n' ∉ ret ∧ t = ret ++ ['\n'] := by
  rcases h with rfl | rfl
  · exact ⟨[], by decide, rfl⟩
  · exact ⟨['\r'], by decide, rfl⟩

/-- The first line feed of a text stands at one place. -/
theorem append_feed_inj {s t u v : Text} (hs : '\n' ∉ s) (ht : '\n' ∉ t)
    (h : s ++ '\n' :: u = t ++ '\n' :: v) :
    s = t ∧ u = v := by
  have hrun {s u : Text} (hs : '\n' ∉ s) : (s ++ '\n' :: u).takeWhile (· ≠ '\n') = s := by
    refine takeWhile_run_append (fun c hc => decide_eq_true fun heq => hs (heq ▸ hc)) fun c hc => ?_
    obtain rfl := Option.some.inj hc
    decide
  obtain rfl : s = t := by rw [← hrun (u := u) hs, h, hrun ht]
  exact ⟨rfl, (List.cons.inj (List.append_cancel_left h)).2⟩

/-- Every text is a last line or a line, a line feed and another text. This is
    the induction for whatever is defined line by line. -/
@[elab_as_elim]
theorem byLines {motive : Text → Prop} (last : ∀ line, '\n' ∉ line → motive line)
    (line : ∀ line rest, '\n' ∉ line → motive rest → motive (line ++ '\n' :: rest)) (t : Text) :
    motive t := by
  induction hlength : t.length using Nat.strongRecOn generalizing t with
  | ind length ih =>
    obtain ⟨run, rest, rfl, hrun, hstop⟩ := exists_run (· ≠ '\n') t
    have hfeed : '\n' ∉ run := fun hmem => absurd (hrun '\n' hmem) (by decide)
    cases rest with
    | nil =>
      rw [List.append_nil]
      exact last run hfeed
    | cons c rest =>
      obtain rfl : c = '\n' := by simpa using hstop c rfl
      rw [List.length_append, List.length_cons] at hlength
      exact line run rest hfeed (ih rest.length (by omega) rest rfl)

section

variable {line s t u eol : Text} {ls others : List Text}

theorem lines_of_not_mem (hfeed : '\n' ∉ line) :
    lines line = if line.isEmpty then [] else [line] := by
  rw [lines, List.splitOn_eq_singleton hfeed]
  rfl

/-- A line up to a line feed is the first line, without the carriage return
    that it may end with. -/
theorem lines_append_feed (hfeed : '\n' ∉ line) (rest : Text) :
    lines (line ++ '\n' :: rest) = dropReturn line :: lines rest := by
  obtain ⟨piece, pieces, hpieces⟩ := List.exists_cons_of_ne_nil (List.splitOn_ne_nil '\n' rest)
  simp only [lines, List.splitOn_append_cons_self_of_not_mem hfeed, hpieces,
    List.dropLast_cons_cons, List.map_cons, List.getLastD_cons, List.cons_append]

theorem dropReturn_return (line : Text) : dropReturn (line ++ ['\r']) = line := by
  rw [dropReturn, if_pos List.getLast?_concat, List.dropLast_concat]

theorem dropReturn_of_not_mem (hreturn : '\r' ∉ line) : dropReturn line = line := by
  rw [dropReturn, if_neg]
  exact fun hlast => hreturn (List.mem_of_getLast? hlast)

/-- What comes before a line feed is a line and perhaps a carriage return. -/
theorem exists_dropReturn (t : Text) :
    ∃ ret, (ret = [] ∨ ret = ['\r']) ∧ t = dropReturn t ++ ret := by
  unfold dropReturn
  split
  · next hreturn =>
    obtain ⟨kept, rfl⟩ := List.getLast?_eq_some_iff.1 hreturn
    exact ⟨['\r'], Or.inr rfl, by rw [List.dropLast_concat]⟩
  · exact ⟨[], Or.inl rfl, (List.append_nil t).symm⟩

/-- A text made of lines, each with a line break behind it, which may be of
    either kind from line to line. -/
inductive Lined : (lines : List Text) → (t : Text) → Prop where
  | nil : Lined [] []
  | line {line lineBreak rest : Text} {lines : List Text} (hfeed : '\n' ∉ line)
      (hbreak : IsBreak lineBreak) (hrest : Lined lines rest) :
      Lined (line :: lines) (line ++ (lineBreak ++ rest))

/-- With a line break behind it, a text is its lines with a line break behind
    each, and a line break more if it ends with one itself. -/
theorem exists_lined (heol : IsBreak eol) (t : Text) :
    ∃ u ends, Lined (lines t) u ∧ (∀ c ∈ ends, isBlank c = true) ∧ t ++ eol = u ++ ends := by
  induction t using byLines with
  | last line hfeed =>
    rw [lines_of_not_mem hfeed]
    cases line with
    | nil => exact ⟨[], eol, .nil, heol.isBlank, rfl⟩
    | cons c line => exact ⟨(c :: line) ++ (eol ++ []), [], .line hfeed heol .nil, by simp, by simp⟩
  | line line rest hfeed ih =>
    obtain ⟨u, ends, hlined, hends, heq⟩ := ih
    obtain ⟨ret, hret, hline⟩ := exists_dropReturn line
    rw [lines_append_feed hfeed]
    generalize dropReturn line = kept at hline
    subst hline
    have hfeed' : '\n' ∉ kept := fun hmem => hfeed (List.mem_append_left ret hmem)
    have hbreak : IsBreak (ret ++ ['\n']) := by
      rcases hret with rfl | rfl
      · exact Or.inl rfl
      · exact Or.inr rfl
    refine ⟨kept ++ ((ret ++ ['\n']) ++ u), ends, .line hfeed' hbreak hlined, hends, ?_⟩
    rw [List.append_assoc, List.cons_append, heq]
    simp

/-- Lines in two groups make a text in two parts. -/
theorem Lined.exists_append (h : Lined (ls ++ others) t) :
    ∃ u v, t = u ++ v ∧ Lined ls u ∧ Lined others v := by
  induction ls generalizing t with
  | nil => exact ⟨[], t, rfl, .nil, h⟩
  | cons line ls ih =>
    cases h with
    | line hfeed hbreak hrest =>
      obtain ⟨u, v, rfl, hu, hv⟩ := ih hrest
      exact ⟨_, v, by simp, .line hfeed hbreak hu, hv⟩

theorem Lined.isBlank (h : Lined ls t) (hblank : ∀ line ∈ ls, Indent.isBlankLine line = true) :
    ∀ c ∈ t, isBlank c = true := by
  induction h with
  | nil => simp
  | line _ hbreak _ ih =>
    intro c hc
    rcases List.mem_append.1 hc with hc | hc
    · exact List.all_eq_true.1 (hblank _ List.mem_cons_self) c hc
    · rcases List.mem_append.1 hc with hc | hc
      · exact hbreak.isBlank c hc
      · exact ih (fun line hline => hblank line (List.mem_cons_of_mem _ hline)) c hc

theorem Lined.not_mem (h : Lined ls t) : ∀ line ∈ ls, '\n' ∉ line := by
  induction h with
  | nil => simp
  | line hfeed _ _ ih =>
    intro other hother
    rcases List.mem_cons.1 hother with rfl | hother
    · exact hfeed
    · exact ih other hother

theorem feed_not_mem_of_mem_lines (hline : line ∈ lines t) : '\n' ∉ line := by
  obtain ⟨u, ends, hlined, -⟩ := exists_lined (Or.inl rfl) t
  exact hlined.not_mem line hline

theorem lined_flatMap (heol : IsBreak eol) (hfeed : ∀ line ∈ ls, '\n' ∉ line) :
    Lined ls (ls.flatMap (· ++ eol)) := by
  induction ls with
  | nil => exact .nil
  | cons line ls ih =>
    rw [List.flatMap_cons, List.append_assoc]
    exact .line (hfeed line List.mem_cons_self) heol
      (ih fun other hother => hfeed other (List.mem_cons_of_mem line hother))

/-- Joined lines with a line break behind them are the lines with one behind
    each. Without any lines the left side would still have one. -/
theorem intercalate_append (hne : ls ≠ []) : eol.intercalate ls ++ eol = ls.flatMap (· ++ eol) := by
  induction ls with
  | nil => exact absurd rfl hne
  | cons line ls ih =>
    cases ls with
    | nil => rw [List.intercalate_singleton, List.flatMap_singleton]
    | cons other ls =>
      rw [List.intercalate_cons_cons, List.append_assoc, ih (List.cons_ne_nil other ls)]
      rfl

theorem withoutBlanks_intercalate (heol : ∀ c ∈ eol, isBlank c = true) (ls : List Text) :
    withoutBlanks (eol.intercalate ls) = ls.flatMap withoutBlanks := by
  induction ls with
  | nil => rfl
  | cons line ls ih =>
    cases ls with
    | nil => simp
    | cons other ls =>
      rw [List.intercalate_cons_cons, withoutBlanks_append, withoutBlanks_append,
        withoutBlanks_eq_nil_iff.2 heol, ih, List.append_nil]
      rfl

theorem Lined.withoutBlanks_eq (h : Lined ls t) : withoutBlanks t = ls.flatMap withoutBlanks := by
  induction h with
  | nil => rfl
  | line _ hbreak _ ih =>
    rw [withoutBlanks_append, withoutBlanks_append, withoutBlanks_eq_nil_iff.2 hbreak.isBlank, ih,
      List.nil_append, List.flatMap_cons]

/-- What is not white space stands within the lines, so telling lines apart
    loses none of it. -/
theorem flatMap_withoutBlanks_lines (t : Text) :
    (lines t).flatMap withoutBlanks = withoutBlanks t := by
  obtain ⟨u, ends, hlined, hends, heq⟩ := exists_lined (Or.inl rfl) t
  rw [← hlined.withoutBlanks_eq, ← List.append_nil (withoutBlanks u),
    ← withoutBlanks_eq_nil_iff.2 hends, ← withoutBlanks_append, ← heq, withoutBlanks_append]
  exact List.append_nil (withoutBlanks t)

end

end Text

end EntitySplit
