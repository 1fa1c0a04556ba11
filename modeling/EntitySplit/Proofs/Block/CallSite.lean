import EntitySplit.Block.Dissection

namespace EntitySplit

namespace Block

/-- What may stand as the call site behind `before`: nothing, the indentation
    of the first line, or a whole line break with the indentation after it. A
    carriage return is never parted from its line feed. -/
def IsCallSite (before callSite : Text) : Prop :=
  callSite = [] ∨ (before = [] ∧ ∀ c ∈ callSite, Text.isIndent c = true) ∨
    ∃ lineBreak indent, callSite = lineBreak ++ indent ∧ (∀ c ∈ indent, Text.isIndent c = true) ∧
      (lineBreak = ['\r', '\n'] ∨ lineBreak = ['\n'] ∧ before.getLast? ≠ some '\r')

/-- How the text before a statement ends, its last character first: after the
    indentation comes a line break, nothing, or another character. The cut
    before a statement makes the same distinctions. -/
inductive LeadIn : Text → Prop where
  | afterReturn {indent : Text} (rest : Text) (hindent : ∀ c ∈ indent, Text.isIndent c = true) :
      LeadIn (indent ++ '\n' :: '\r' :: rest)
  | afterFeed {indent rest : Text} (hindent : ∀ c ∈ indent, Text.isIndent c = true)
      (hrest : rest.head? ≠ some '\r') : LeadIn (indent ++ '\n' :: rest)
  | first {indent : Text} (hindent : ∀ c ∈ indent, Text.isIndent c = true) : LeadIn indent
  | afterOther {indent : Text} {c : Char} (rest : Text)
      (hindent : ∀ c ∈ indent, Text.isIndent c = true) (hc : Text.isIndent c = false)
      (hfeed : c ≠ '\n') : LeadIn (indent ++ c :: rest)

/-- Every text ends in one of the four ways. -/
theorem leadIn (before : Text) : LeadIn before := by
  obtain ⟨indent, rest, rfl, hindent, hrest⟩ := Text.exists_run Text.isIndent before
  cases rest with
  | nil =>
    rw [List.append_nil]
    exact .first hindent
  | cons c rest =>
    by_cases hfeed : c = '\n'
    · subst hfeed
      by_cases hreturn : rest.head? = some '\r'
      · obtain ⟨rest, rfl⟩ := List.head?_eq_some_iff.1 hreturn
        exact .afterReturn rest hindent
      · exact .afterFeed hindent hreturn
    · exact .afterOther rest hindent (hrest c rfl) hfeed

section

variable {indent rest : Text} (hindent : ∀ c ∈ indent, Text.isIndent c = true)
include hindent

/-- A line break of two characters goes with the indentation behind it,
    wherever in the document it is. -/
theorem cutCallSite_return (atStart : Bool) :
    cutCallSite atStart (indent ++ '\n' :: '\r' :: rest) =
      (rest.reverse, ['\r', '\n'] ++ indent.reverse) := by
  have hstop : ∀ c ∈ List.head? ('\n' :: '\r' :: rest), Text.isIndent c = false := by
    simp [Text.isIndent]
  rw [cutCallSite, Text.takeWhile_run_append hindent hstop, Text.dropWhile_run_append hindent hstop]
  rfl

/-- A line feed goes alone if no carriage return is before it. -/
theorem cutCallSite_feed (atStart : Bool) (hrest : rest.head? ≠ some '\r') :
    cutCallSite atStart (indent ++ '\n' :: rest) = (rest.reverse, ['\n'] ++ indent.reverse) := by
  have hstop : ∀ c ∈ List.head? ('\n' :: rest), Text.isIndent c = false := by simp [Text.isIndent]
  rw [cutCallSite, Text.takeWhile_run_append hindent hstop, Text.dropWhile_run_append hindent hstop]
  split <;> simp_all

/-- Indentation with nothing before it goes only at the start of the document;
    behind a block it stays, since it is not that of a whole line. -/
theorem cutCallSite_first (atStart : Bool) :
    cutCallSite atStart indent = if atStart then ([], indent.reverse)
      else (indent.reverse, []) := by
  have hstop : ∀ c ∈ List.head? [], Text.isIndent c = false := by simp
  have htake := Text.takeWhile_run_append hindent hstop
  have hdrop := Text.dropWhile_run_append hindent hstop
  rw [List.append_nil] at htake hdrop
  rw [cutCallSite, htake, hdrop]

/-- Where another character stands before the indentation nothing is cut. -/
theorem cutCallSite_other (atStart : Bool) {c : Char} (hc : Text.isIndent c = false)
    (hfeed : c ≠ '\n') :
    cutCallSite atStart (indent ++ c :: rest) = ((indent ++ c :: rest).reverse, []) := by
  have hstop : ∀ d ∈ List.head? (c :: rest), Text.isIndent d = false := by simp [hc]
  rw [cutCallSite, Text.takeWhile_run_append hindent hstop, Text.dropWhile_run_append hindent hstop]
  split <;> simp_all

end

/-- What is cut before a statement is a call site. By the four ways in which a
    text ends, this is one case for each. -/
theorem isCallSite_cutCallSite (atStart : Bool) (before : Text) :
    IsCallSite (cutCallSite atStart before).1 (cutCallSite atStart before).2 := by
  have hreverse {indent : Text} (hindent : ∀ c ∈ indent, Text.isIndent c = true) :
      ∀ c ∈ indent.reverse, Text.isIndent c = true := fun c hc => hindent c (List.mem_reverse.1 hc)
  cases leadIn before with
  | afterReturn rest hindent =>
    rw [cutCallSite_return hindent]
    exact Or.inr (Or.inr ⟨_, _, rfl, hreverse hindent, Or.inl rfl⟩)
  | afterFeed hindent hrest =>
    rw [cutCallSite_feed hindent atStart hrest]
    refine Or.inr (Or.inr ⟨_, _, rfl, hreverse hindent, Or.inr ⟨rfl, ?_⟩⟩)
    rwa [List.getLast?_reverse]
  | first hindent =>
    rw [cutCallSite_first hindent]
    cases atStart with
    | true => exact Or.inr (Or.inl ⟨rfl, hreverse hindent⟩)
    | false => exact Or.inl rfl
  | afterOther rest hindent hc hfeed =>
    rw [cutCallSite_other hindent atStart hc hfeed]
    exact Or.inl rfl

/-- The cut before a statement needs no text from before the last statement:
    the `;` there is neither indentation nor part of a line break. So the
    search can drop what it has passed. -/
theorem cutCallSite_append_semicolon (kept passed : Text) :
    cutCallSite true (kept ++ ';' :: passed) =
      ((';' :: passed).reverse ++ (cutCallSite false kept).1, (cutCallSite false kept).2) := by
  cases leadIn kept with
  | afterReturn rest hindent =>
    rw [cutCallSite_return hindent, List.append_assoc, List.cons_append, List.cons_append,
      cutCallSite_return hindent, List.reverse_append]
  | @afterFeed indent rest hindent hrest =>
    have hhead : (rest ++ ';' :: passed).head? ≠ some '\r' := by
      cases rest with
      | nil => simp
      | cons c rest => exact hrest
    rw [cutCallSite_feed hindent false hrest, List.append_assoc, List.cons_append,
      cutCallSite_feed hindent true hhead, List.reverse_append]
  | first hindent =>
    rw [cutCallSite_first hindent, cutCallSite_other hindent true (by decide) (by decide),
      List.reverse_append]
    rfl
  | afterOther rest hindent hc hfeed =>
    rw [cutCallSite_other hindent false hc hfeed, List.append_assoc, List.cons_append,
      cutCallSite_other hindent true hc hfeed]
    simp

end Block

end EntitySplit
