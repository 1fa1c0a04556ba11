import EntitySplit.Proofs.Indent
import EntitySplit.Proofs.Lexical.Grammar

namespace EntitySplit

namespace Indent

open Lexical (AtLineEnd)
open Text (IsBreak isBlank isIndent)

/-- A text with `newIndent` in the place of `oldIndent` on its first line. -/
def shiftFirst (oldIndent newIndent t : Text) : Text :=
  shift oldIndent newIndent (t.takeWhile (· ≠ '\n')) ++ t.dropWhile (· ≠ '\n')

/-- A text with `newIndent` in the place of `oldIndent` on each line but the
    first. This is what becomes of a part of the statements that begins within
    a line. -/
def continued (oldIndent newIndent : Text) : Text → Text
  | [] => []
  | c :: t =>
    if c = '\n' then '\n' :: shiftFirst oldIndent newIndent (continued oldIndent newIndent t)
    else c :: continued oldIndent newIndent t

section

variable {oldIndent newIndent mark s t line : Text} {c : Char}

theorem continued_feed (t : Text) :
    continued oldIndent newIndent ('\n' :: t) =
      '\n' :: shiftFirst oldIndent newIndent (continued oldIndent newIndent t) :=
  if_pos rfl

theorem continued_cons (hc : c ≠ '\n') (t : Text) :
    continued oldIndent newIndent (c :: t) = c :: continued oldIndent newIndent t :=
  if_neg hc

/-- What stands before the first line feed is not changed. -/
theorem continued_append_of_not_mem (hfeed : '\n' ∉ s) (t : Text) :
    continued oldIndent newIndent (s ++ t) = s ++ continued oldIndent newIndent t := by
  induction s with
  | nil => rfl
  | cons c s ih =>
    rw [List.mem_cons, not_or] at hfeed
    rw [List.cons_append, continued_cons (Ne.symm hfeed.1), ih hfeed.2, List.cons_append]

/-- What is within one line stays as it is. -/
theorem continued_of_not_mem (hfeed : '\n' ∉ s) : continued oldIndent newIndent s = s := by
  have hsame : continued oldIndent newIndent (s ++ []) = s ++ continued oldIndent newIndent [] :=
    continued_append_of_not_mem hfeed []
  rwa [List.append_nil, continued, List.append_nil] at hsame

theorem continued_line (hline : '\n' ∉ line) (t : Text) :
    continued oldIndent newIndent (line ++ '\n' :: t) =
    line ++ '\n' :: shiftFirst oldIndent newIndent (continued oldIndent newIndent t) := by
  rw [continued_append_of_not_mem hline, continued_feed]

theorem head?_continued (t : Text) : (continued oldIndent newIndent t).head? = t.head? := by
  cases t with
  | nil => rfl
  | cons c t =>
    by_cases hc : c = '\n'
    · rw [hc, continued_feed]
      rfl
    · rw [continued_cons hc]
      rfl

/-- Dropping characters up to a line feed at most gives the same with another
    indentation. -/
theorem dropWhile_continued {p : Char → Bool} (hp : p '\n' = false) (t : Text) :
    (continued oldIndent newIndent t).dropWhile p =
      continued oldIndent newIndent (t.dropWhile p) := by
  induction t with
  | nil => rfl
  | cons c t ih =>
    cases hc : p c with
    | true =>
      have hne : c ≠ '\n' := by
        rintro rfl
        rw [hp] at hc
        exact absurd hc (by decide)
      rw [continued_cons hne, List.dropWhile_cons_of_pos hc, List.dropWhile_cons_of_pos hc, ih]
    | false =>
      rw [List.dropWhile_cons_of_neg (by simp [hc])]
      by_cases hne : c = '\n'
      · rw [hne] at hc ⊢
        rw [continued_feed, List.dropWhile_cons_of_neg (by simp [hc])]
      · rw [continued_cons hne, List.dropWhile_cons_of_neg (by simp [hc])]

/-- A mark without a line feed stands at the beginning of both or of neither.
    So comments and literals begin and end at the same places. -/
theorem prefix_continued_iff (hmark : '\n' ∉ mark) :
    mark <+: continued oldIndent newIndent t ↔ mark <+: t := by
  induction mark generalizing t with
  | nil => simp
  | cons m mark ih =>
    rw [List.mem_cons, not_or] at hmark
    cases t with
    | nil => rfl
    | cons c t =>
      by_cases hc : c = '\n'
      · rw [hc, continued_feed, List.cons_prefix_cons, List.cons_prefix_cons]
        exact iff_of_false (fun h => hmark.1 h.1.symm) (fun h => hmark.1 h.1.symm)
      · rw [continued_cons hc, List.cons_prefix_cons, List.cons_prefix_cons, ih hmark.2]

theorem feed_mem_continued (hfeed : '\n' ∈ t) : '\n' ∈ continued oldIndent newIndent t := by
  obtain ⟨s, u, rfl, hs⟩ := List.eq_append_cons_of_mem hfeed
  rw [continued_line hs]
  exact List.mem_append_right s List.mem_cons_self

/-- Only a text within one line becomes one. -/
theorem eq_of_continued_eq (h : continued oldIndent newIndent t = s) (hfeed : '\n' ∉ s) :
    t = s := by
  rw [← h, continued_of_not_mem fun hmem => hfeed (h ▸ feed_mem_continued hmem)]

theorem shiftFirst_line (hline : '\n' ∉ line) (t : Text) :
    shiftFirst oldIndent newIndent (line ++ '\n' :: t) =
      shift oldIndent newIndent line ++ '\n' :: t := by
  have hrun : ∀ c ∈ line, decide (c ≠ '\n') = true :=
    fun c hc => decide_eq_true fun heq => hline (heq ▸ hc)
  have hstop : ∀ c ∈ List.head? ('\n' :: t), decide (c ≠ '\n') = false := by simp
  rw [shiftFirst, Text.takeWhile_run_append hrun hstop, Text.dropWhile_run_append hrun hstop]

theorem shiftFirst_of_not_mem (hline : '\n' ∉ line) :
    shiftFirst oldIndent newIndent line = shift oldIndent newIndent line := by
  have hrun : ∀ c ∈ line, decide (c ≠ '\n') = true :=
    fun c hc => decide_eq_true fun heq => hline (heq ▸ hc)
  have htake : (line ++ []).takeWhile (· ≠ '\n') = line := Text.takeWhile_run_append hrun (by simp)
  have hdrop : (line ++ []).dropWhile (· ≠ '\n') = [] := Text.dropWhile_run_append hrun (by simp)
  rw [List.append_nil] at htake hdrop
  rw [shiftFirst, htake, hdrop, List.append_nil]

/-- The indentation of the first line is another one or the whole text is as it
    was. -/
theorem shiftFirst_cases (oldIndent newIndent t : Text) : shiftFirst oldIndent newIndent t = t ∨
    ∃ rest, t = oldIndent ++ rest ∧ shiftFirst oldIndent newIndent t = newIndent ++ rest := by
  have hsplit := List.takeWhile_append_dropWhile (p := (· ≠ '\n')) (l := t)
  unfold shiftFirst shift
  split
  · exact Or.inl hsplit
  · split
    · next rest hrest =>
      rw [Text.eq_append_of_after? hrest, List.append_assoc] at hsplit
      exact Or.inr ⟨_, hsplit.symm, List.append_assoc _ _ _⟩
    · exact Or.inl hsplit

/-- What holds of a text whatever indentation it begins with holds of it with
    another one. The scanner's states are such properties: spaces and tabs do
    not change them. -/
theorem shiftFirst_of_forall {P : Text → Prop}
    (hindent : ∀ c t, isIndent c = true → (P (c :: t) ↔ P t))
    (hold : ∀ c ∈ oldIndent, isIndent c = true) (hnew : ∀ c ∈ newIndent, isIndent c = true)
    (h : P t) :
    P (shiftFirst oldIndent newIndent t) := by
  have hindents {indent t : Text} (hmem : ∀ c ∈ indent, isIndent c = true) :
    P (indent ++ t) ↔ P t := by
    induction indent with
    | nil => rfl
    | cons c indent ih =>
      obtain ⟨hc, hindent'⟩ := List.forall_mem_cons.1 hmem
      rw [List.cons_append, hindent c _ hc, ih hindent']
  rcases shiftFirst_cases oldIndent newIndent t with hsame | ⟨rest, rfl, hchanged⟩
  · rwa [hsame]
  · rw [hchanged, hindents hnew]
    exact (hindents hold).1 h

end

section

variable {oldIndent newIndent a b s t eol : Text} (hold : ∀ c ∈ oldIndent, isIndent c = true)

include hold

/-- Behind anything but white space nothing more of a line tells its
    indentation. `h` also allows a blank beginning if the rest is blank, as
    then the line is left alone in both readings. -/
theorem shift_append (h : isBlankLine s = true → isBlankLine t = true) :
    shift oldIndent newIndent (s ++ t) = shift oldIndent newIndent s ++ t := by
  have hall : isBlankLine (s ++ t) = (isBlankLine s && isBlankLine t) := List.all_append
  cases hs : isBlankLine s with
  | true =>
    rw [hs, h hs, Bool.and_self] at hall
    rw [shift, if_pos hall, shift, if_pos hs]
  | false =>
    rw [hs, Bool.false_and] at hall
    rw [shift, hall, shift, hs]
    simp only [Bool.false_eq_true, if_false]
    cases hrest : Text.after? oldIndent s with
    | some rest =>
      have hwhole : Text.after? oldIndent (s ++ t) = some (rest ++ t) := by
        rw [Text.eq_append_of_after? hrest, List.append_assoc, Text.after?_append]
      rw [hwhole, List.append_assoc]
    | none =>
      have hwhole : Text.after? oldIndent (s ++ t) = none := by
        rw [Text.after?_eq_none_iff] at hrest ⊢
        intro hfront
        rcases List.prefix_or_prefix_of_prefix hfront (List.prefix_append s t) with hfirst | hwithin
        · exact hrest hfirst
        · have hblank : isBlankLine s = true :=
            List.all_eq_true.2 fun c hc => isBlank_of_isIndent (hold c (hwithin.subset hc))
          rw [hs] at hblank
          exact absurd hblank (by decide)
      rw [hwhole]

/-- A text may be set anew up to a cut if its first line ends before the cut,
    shows something before it, or has only its end behind it. -/
theorem shiftFirst_append (h : '\n' ∈ s ∨ isBlankLine s = false ∨ AtLineEnd t) :
    shiftFirst oldIndent newIndent (s ++ t) = shiftFirst oldIndent newIndent s ++ t := by
  by_cases hfeed : '\n' ∈ s
  · obtain ⟨line, rest, rfl, hline⟩ := List.eq_append_cons_of_mem hfeed
    rw [List.append_assoc, List.cons_append, shiftFirst_line hline, shiftFirst_line hline,
      List.append_assoc, List.cons_append]
  · have hrun : ∀ c ∈ s, decide (c ≠ '\n') = true :=
      fun c hc => decide_eq_true fun heq => hfeed (heq ▸ hc)
    have hblank : isBlankLine s = true → isBlankLine (t.takeWhile (· ≠ '\n')) = true := by
      intro hs
      rcases h with hmem | hnot | hend
      · exact absurd hmem hfeed
      · rw [hs] at hnot
        exact absurd hnot (by decide)
      · cases t with
        | nil => rfl
        | cons c t =>
          obtain rfl := hend c rfl
          rfl
    have hsplit := List.takeWhile_append_dropWhile (p := (· ≠ '\n')) (l := t)
    rw [shiftFirst, List.takeWhile_append_of_pos hrun, List.dropWhile_append_of_pos hrun,
      shift_append hold hblank, List.append_assoc, hsplit, shiftFirst_of_not_mem hfeed]

/-- A text can be cut behind anything but white space, and in front of a line
    feed. Elsewhere the part behind the cut could begin within an indentation. -/
theorem continued_append (h : (∀ c ∈ a.getLast?, isBlank c = false) ∨ AtLineEnd b) :
    continued oldIndent newIndent (a ++ b) =
      continued oldIndent newIndent a ++ continued oldIndent newIndent b := by
  induction a with
  | nil => rfl
  | cons c a ih =>
    have hrest : (∀ d ∈ a.getLast?, isBlank d = false) ∨ AtLineEnd b := by
      refine h.imp_left fun hlast d hd => hlast d ?_
      rw [List.getLast?_cons, Option.mem_def.1 hd]
      rfl
    by_cases hc : c = '\n'
    · subst hc
      have hfirst : '\n' ∈ continued oldIndent newIndent a ∨
        isBlankLine (continued oldIndent newIndent a) = false ∨
          AtLineEnd (continued oldIndent newIndent b) := by
        rcases h with hlast | hend
        · by_cases hfeed : '\n' ∈ a
          · exact Or.inl (feed_mem_continued hfeed)
          · -- The last character is on the first line.
            have hvisible := hlast _ (List.getLast?_eq_some_getLast (List.cons_ne_nil '\n' a))
            have hmem : ('\n' :: a).getLast (List.cons_ne_nil '\n' a) ∈ '\n' :: a :=
              List.getLast_mem _
            refine Or.inr (Or.inl (List.all_eq_false.2 ⟨_, ?_, by simpa using hvisible⟩))
            rw [continued_of_not_mem hfeed]
            refine (List.mem_cons.1 hmem).resolve_left fun heq => ?_
            rw [heq] at hvisible
            exact absurd hvisible (by decide)
        · refine Or.inr (Or.inr ?_)
          rwa [AtLineEnd, head?_continued]
      rw [List.cons_append, continued_feed, continued_feed, ih hrest, shiftFirst_append hold hfirst,
        List.cons_append]
    · rw [List.cons_append, continued_cons hc, continued_cons hc, ih hrest, List.cons_append]

/-- Lines set anew, with something behind them. It ties the re-indentation,
    which works on a list of lines, to `continued`, which works on a text. -/
theorem shiftFirst_continued_lines (heol : IsBreak eol) {ls : List Text}
    (hls : ∀ line ∈ ls, '\n' ∉ line) (t : Text) :
    shiftFirst oldIndent newIndent (continued oldIndent newIndent (ls.flatMap (· ++ eol) ++ t)) =
      (ls.map (shift oldIndent newIndent)).flatMap (· ++ eol) ++
        shiftFirst oldIndent newIndent (continued oldIndent newIndent t) := by
  induction ls with
  | nil => rfl
  | cons line ls ih =>
    obtain ⟨hline, hls⟩ := List.forall_mem_cons.1 hls
    obtain ⟨ret, hret, rfl⟩ := heol.exists_return
    have hblank : isBlankLine line = true → isBlankLine ret = true :=
      fun _ => List.all_eq_true.2 fun c hc => heol.isBlank c (List.mem_append_left _ hc)
    have hfeed : '\n' ∉ line ++ ret := by simp [hline, hret]
    have hsplit (t : Text) : (line :: ls).flatMap (· ++ (ret ++ ['\n'])) ++ t =
        (line ++ ret) ++ '\n' :: (ls.flatMap (· ++ (ret ++ ['\n'])) ++ t) := by simp
    rw [hsplit, continued_line hfeed, shiftFirst_line hfeed, ih hls,
      shift_append hold hblank]
    simp

end

end Indent

end EntitySplit
