import EntitySplit.Proofs.Block.Passage
import EntitySplit.Proofs.Lexical.Code
import EntitySplit.Reference
import EntitySplit.Text.Line

namespace EntitySplit

namespace Block

open Lexical

section

variable {receiver document lead statement rest : Text} {before after : List Block}
  {block previous : Block}

/-- A call site is white space: indentation, and the line break before it if
    there is one. -/
theorem IsCallSite.isBlank {before callSite : Text} (h : IsCallSite before callSite) :
    ∀ c ∈ callSite, Text.isBlank c = true := by
  have hindent {c : Char} (hc : Text.isIndent c = true) : Text.isBlank c = true := by
    rw [Text.isIndent, Bool.or_eq_true, decide_eq_true_eq, decide_eq_true_eq] at hc
    rcases hc with rfl | rfl <;> decide
  rcases h with rfl | ⟨-, hall⟩ | ⟨lineBreak, indent, rfl, hall, hbreak⟩
  · exact fun c hc => absurd hc List.not_mem_nil
  · exact fun c hc => hindent (hall c hc)
  · have hlineBreak : ∀ c ∈ lineBreak, Text.isBlank c = true := by
      rcases hbreak with rfl | ⟨rfl, -⟩ <;> decide
    intro c hc
    rcases List.mem_append.1 hc with hc | hc
    · exact hlineBreak c hc
    · exact hindent (hall c hc)

/-- There is no code in a call site, so the code before the statement is the
    code before its removal. -/
theorem StandsBetween.codeIn_outer_start
    (h : StandsBetween receiver document block lead statement rest) :
    codeIn document ⟨0, block.outer.start⟩ = codeIn document ⟨0, block.removal.start⟩ := by
  have hdocument := h.document_eq
  have hsite := isCallSite_cutCallSite true (lead ++ block.callSite).reverse
  rw [List.append_assoc, List.append_assoc] at hdocument
  rw [h.callSite_cut] at hsite
  rw [codeIn_split document (Nat.zero_le _) h.fitsIn.removal_start_le, h.removal_start,
    h.outer_start, codeIn_eq_nil_of_isBlank hdocument hsite.isBlank, List.append_nil]

/-- The code through a block that starts in code ends with its `;`. The
    receiver must be a word: with a quote in it the end of the block would be
    read as a literal. -/
theorem StandsBetween.getLast?_codeIn_outer_stop
    (h : StandsBetween receiver document block lead statement rest)
    (hword : ∀ c ∈ receiver, Text.isWord c = true)
    (hcode : kindAt? document block.outer.start = some .code) :
    (codeIn document ⟨0, block.outer.stop⟩).getLast? = some ';' := by
  obtain ⟨segments, hreads⟩ := (h.reaches_statement hcode).trans (h.reaches_end hword)
  have hinert : ∀ c ∈ [';'], isInert c = true := by decide
  have hsemicolon : Reads (';' :: rest) [.code ';'] rest := reads_of_isInert hinert rest
  have hthrough : lead ++ block.callSite ++ statement = segments.flatMap Segment.text ++ [';'] := by
    have hdocument := h.document_eq.symm.trans hreads.text_eq
    rw [List.append_cons] at hdocument
    exact List.append_cancel_right hdocument
  rw [h.outer_stop, hthrough]
  exact getLast?_codeIn_of_reads hreads hsemicolon (by decide)

/-- No word runs into a block. The start pattern looks at the character before
    the receiver, so nothing is asked of the receiver or of the kinds. -/
theorem isWord_getLast?_of_mem_locate (hmem : block ∈ locate receiver document)
    (hsplit : Text.splitAt? document block.outer.start = some (lead, rest)) :
    ∀ c ∈ lead.getLast?, Text.isWord c = false := by
  obtain ⟨front, statement, behind, hstands⟩ := exists_standsBetween hmem
  obtain ⟨hdocument, hsize⟩ := Text.splitAt?_eq_some_iff.1 hsplit
  obtain ⟨inner, hstart, -⟩ := hstands.reads
  have hsame := hstands.document_eq.symm.trans hdocument
  rw [List.append_assoc] at hsame
  obtain ⟨hlead, -⟩ := Text.append_inj_of_size hsame (hstands.outer_start.symm.trans hsize.symm)
  intro c hc
  have hnot := (afterStart?_eq_some_iff.1 hstart).1
  rwa [hlead, Option.mem_def.1 hc] at hnot

/-- The part of a document between a block and the one before it, or the
    beginning of the document. It ends where the removal of the block begins. -/
def gapBehind (before : List Block) (block : Block) : Span :=
  ⟨(before.getLast?.map (·.outer.stop)).getD 0, block.removal.start⟩

/-- Before a block stands the code of the gap; where the gap has none, the `;`
    of the block before. That all blocks start in code is needed for the block
    before, whose `;` is code only then. -/
theorem getLast?_codeIn_outer_start (hword : ∀ c ∈ receiver, Text.isWord c = true)
    (hcode : ∀ block ∈ locate receiver document, kindAt? document block.outer.start = some .code)
    (hlocated : locate receiver document = before ++ block :: after) :
    (codeIn document ⟨0, block.outer.start⟩).getLast? =
      (codeIn document (gapBehind before block)).getLast?.or
        (before.getLast?.map fun _ => ';') := by
  have hmem : block ∈ locate receiver document := by simp [hlocated]
  obtain ⟨lead, statement, rest, hstands⟩ := exists_standsBetween hmem
  rw [hstands.codeIn_outer_start]
  rcases List.eq_nil_or_concat before with rfl | ⟨others, previous, rfl⟩
  · simp [gapBehind]
  · rw [List.concat_eq_append] at hlocated ⊢
    have hpreviousMem : previous ∈ locate receiver document := by simp [hlocated]
    obtain ⟨_, _, _, hprevious⟩ := exists_standsBetween hpreviousMem
    have hapart : previous.outer.stop ≤ block.removal.start := by
      have hpairwise := pairwise_locate receiver document
      rw [hlocated, List.append_assoc, List.pairwise_append] at hpairwise
      exact (List.rel_of_pairwise_cons hpairwise.2.1 List.mem_cons_self).2
    rw [codeIn_split document (Nat.zero_le _) hapart, List.getLast?_append,
      hprevious.getLast?_codeIn_outer_stop hword (hcode previous hpreviousMem), gapBehind,
      List.getLast?_concat]
    rfl

end

end Block

namespace Reference

open Block Lexical

section

variable {settings : Settings} {document : Text} {before after : List Block} {block : Block}

/-- Nothing takes the place of a block where there are no references, or they
    are all at another block. The edit for it takes out its removal and puts in
    nothing. -/
theorem mem_edits_of_left_out (lineEnding : Text)
    (hmode : settings.referenceMode = .none ∨ settings.referenceMode = .aggregate ∧ before ≠ []) :
    ⟨block.removal, []⟩ ∈ edits settings lineEnding (before ++ block :: after) := by
  rcases hmode with hmode | ⟨hmode, hne⟩
  · simp [edits, hmode]
  · obtain ⟨first, others, rfl⟩ := List.exists_cons_of_ne_nil hne
    simp [edits, hmode]

/-- The characters of code between which whole statements stand: the end of a
    statement and the two braces. -/
def statementBounds : List Char :=
  [';', '{', '}']

/-- Where nothing takes the place of a block, no word runs into it, and the
    code before it is that of the gap to the block before, as it is, or else
    ends with that block's `;`. So a whole statement is taken out if, and only
    if, the gap has no code or ends where statements do. What the gap holds is
    not looked at when blocks are located, hence no premise on it. -/
theorem left_behind_as_is (hword : ∀ c ∈ settings.receiver, Text.isWord c = true)
    (hcode : ∀ block ∈ locate settings.receiver document,
      kindAt? document block.outer.start = some .code)
    (hlocated : locate settings.receiver document = before ++ block :: after)
    (hmode : settings.referenceMode = .none ∨ settings.referenceMode = .aggregate ∧ before ≠ []) :
    ⟨block.removal, []⟩ ∈
        edits settings (Text.lineEnding document) (locate settings.receiver document) ∧
      (∀ lead rest, Text.splitAt? document block.outer.start = some (lead, rest) →
        ∀ c ∈ lead.getLast?, Text.isWord c = false) ∧
      (codeIn document ⟨0, block.outer.start⟩).getLast? =
        (codeIn document (gapBehind before block)).getLast?.or (before.getLast?.map fun _ => ';') ∧
      ((∀ c ∈ (codeIn document ⟨0, block.outer.start⟩).getLast?, c ∈ statementBounds) ↔
        ∀ c ∈ (codeIn document (gapBehind before block)).getLast?, c ∈ statementBounds) := by
  have hlast := getLast?_codeIn_outer_start hword hcode hlocated
  have hmem : block ∈ locate settings.receiver document := by simp [hlocated]
  refine ⟨hlocated ▸ mem_edits_of_left_out _ hmode, fun _ _ => isWord_getLast?_of_mem_locate hmem,
    hlast, ?_⟩
  rw [hlast]
  cases (codeIn document (gapBehind before block)).getLast? with
  | some c => rfl
  | none => cases before.getLast? <;> simp [statementBounds]

/-- Two blocks on one line with only a comment between them, which holds the
    word `if`. -/
def adjacentBlocks : Text :=
  "m.Entity<A>(a => \x7b \x7d); /* if */ m.Entity<B>(b => \x7b \x7d);".toList

/-- The gap between the two blocks has no code, so what stands before the
    second one is the `;` of the first. The word in the comment does not count. -/
theorem left_behind_as_is_adjacent :
    ∃ first second, locate ['m'] adjacentBlocks = [first] ++ second :: [] ∧
      (codeIn adjacentBlocks (gapBehind [first] second)).getLast? = none ∧
      (codeIn adjacentBlocks ⟨0, second.outer.start⟩).getLast? = some ';' := by
  have hword : ∀ c ∈ ({ receiver := ['m'], referenceMode := .aggregate } : Settings).receiver,
      Text.isWord c = true := by decide
  have hcode :
    ∀ block ∈ locate ['m'] adjacentBlocks,
      kindAt? adjacentBlocks block.outer.start = some .code := by
    decide +kernel
  have hspans :
    (locate ['m'] adjacentBlocks).map (fun block => (block.outer.stop, block.removal.start)) =
        [(22, 0), (54, 32)] := by decide +kernel
  obtain ⟨first, second, hblocks⟩ :=
    List.length_eq_two.1 (by simpa using congrArg List.length hspans)
  have hlocated : locate ['m'] adjacentBlocks = [first] ++ second :: [] := hblocks
  have hgap : (codeIn adjacentBlocks (gapBehind [first] second)).getLast? = none := by
    have hspan : gapBehind [first] second = ⟨22, 32⟩ := by
      rw [hblocks] at hspans
      simp_all [gapBehind]
    rw [hspan]
    decide +kernel
  have hlast := (left_behind_as_is hword hcode hlocated (.inr ⟨rfl, List.cons_ne_nil _ _⟩)).2.2.1
  rw [hgap] at hlast
  exact ⟨first, second, hlocated, hgap, hlast⟩

/-- For each block of a document the kind of its first character and the last
    code before it, as the counterexamples below compare them. -/
def codeAhead (receiver document : Text) : List (Option Kind × Option Char) :=
  (locate receiver document).map fun block =>
    (kindAt? document block.outer.start, (codeIn document ⟨0, block.outer.start⟩).getLast?)

/-- The condition of an `if` and a prefix `this.` are left before the code that
    follows. A receiver with a quote makes a literal of the end of its block,
    so that the premise on the receiver is needed. -/
theorem unfinished_statement_left :
    codeAhead "modelBuilder".toList
      "if (x)\n    modelBuilder.Entity<A>(a => \x7b \x7d);\nKeep();\n".toList =
        [(some .code, some ')')] ∧
      codeAhead "modelBuilder".toList
        "this.modelBuilder.Entity<A>(a => \x7b \x7d);\nKeep();\n".toList =
        [(some .code, some '.')] ∧
      codeAhead "x'".toList "x'.Entity<A>(a => \x7b \x7d);\nx'.Entity<B>(b => \x7b \x7d);".toList =
        [(some .code, none), (some .code, some 'x')] := by
  decide +kernel

end

end Reference

end EntitySplit
