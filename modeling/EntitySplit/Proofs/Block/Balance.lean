import EntitySplit.Lexical.Cursor
import EntitySplit.Proofs.Block.Grammar
import EntitySplit.Proofs.Lexical.Reading
import EntitySplit.Split.Warning

namespace EntitySplit

namespace Lexical

/-- The balance of a text is the number of its opening braces in code less that
    of its closing ones. The running count of the program, which goes segment
    by segment, comes to the same. -/
theorem braceBalance_eq_count (t : Text) :
    braceBalance t = (segments t).count (.code '{') - (segments t).count (.code '}') := by
  rw [braceBalance]
  induction segments t with
  | nil => rfl
  | cons segment segments ih =>
    rw [List.foldr_cons, ih, List.count_cons, List.count_cons]
    unfold braceWeight
    split <;> simp_all <;> omega

/-- The text before a closer is read alone as it is read with the closer behind
    it: nothing in it is open where the closer stands. A closer that is a line
    feed would end a comment before it, hence the premise. -/
theorem Closes.segments_inside {opener closer : Char} (hcloser : closer ≠ '\n') {inside rest : Text}
    (h : Closes opener closer inside rest) : Balanced opener closer 0 (segments inside) := by
  obtain ⟨pre, hreads, -, hbalanced, -⟩ := h.exists_reads
  rw [hreads.segments_inside hcloser]
  exact hbalanced

/-- Braces balance in a text that a closing brace closes, also when this text
    is read anew from its beginning and without what follows. -/
theorem Closes.braceBalance_eq_zero {inside rest : Text} (h : Closes '{' '}' inside rest) :
    braceBalance inside = 0 := by
  have hcount := (h.segments_inside (by decide)).count_eq
  rw [braceBalance_eq_count, hcount, Nat.add_zero, Int.sub_self]

/-- What a cursor finds between two positions of its text is closed by the
    closer that it stops at. Opener and closer must differ, as with equal ones
    the first closer would open. -/
theorem Cursor.exists_closes_of_findMatching {cursor next : Cursor} {opener closer : Char}
    (hne : opener ≠ closer) {position : Nat}
    (h : cursor.findMatching opener closer = (some position, next)) :
    ∃ inside rest, Span.slice? ⟨cursor.position + opener.utf8Size, position⟩ cursor.text =
      some inside ∧
      Closes opener closer inside rest := by
  unfold findMatching at h
  split at h
  · exact absurd h (by simp)
  · exact absurd h (by simp)
  · next c t hrest =>
    split at h
    · next hc =>
      subst hc
      split at h
      · exact absurd h (by simp)
      · next inside after hclosing =>
        obtain ⟨head, htext, hhead⟩ := Text.from?_eq_some_iff.1 hrest
        have hmatching : matching? c closer (c :: t) = some (inside, after) := by
          rw [matching?, if_pos rfl, hclosing]
        obtain ⟨heq, hcloses⟩ := (matching?_eq_some_iff hne).1 hmatching
        obtain rfl := (List.cons.inj heq).2
        simp only [Prod.mk.injEq, Option.some.injEq] at h
        refine ⟨inside, after, Span.slice?_eq_some_iff.2 ⟨head ++ [c], closer :: after, ?_, ?_, ?_⟩,
          hcloses⟩
        · simp [htext]
        · simp [hhead]
        · simp [hhead, ← h.1]
    · exact absurd h (by simp)

end Lexical

namespace Block

open Lexical

/-- Braces balance in the body of each located block, whatever the receiver is.
    The grammar of blocks supplies that the body is closed by its brace. -/
theorem braceBalance_of_mem_locate {receiver document : Text} {block : Block}
    (hmem : block ∈ locate receiver document) : braceBalance block.content.statements = 0 := by
  obtain ⟨lead, statement, rest, hstands⟩ := exists_standsBetween hmem
  obtain ⟨inner, -, hcontent⟩ := hstands.reads
  obtain ⟨layout, -, hformed, -, -, hstatements⟩ := Layout.exists_wellFormed hcontent
  rw [hstatements]
  exact hformed.statements_closes.braceBalance_eq_zero

/-- Braces balance in the body of every located block, so that there is no
    warning about any of them, and between any two positions that the search
    for a closing brace finds. Neither the text nor the position of the cursor
    is restricted. -/
theorem locate_balanced :
    (∀ (cursor next : Cursor) (position : Nat),
      cursor.findMatching '{' '}' = (some position, next) →
      ∃ inside, Span.slice? ⟨cursor.position + 1, position⟩ cursor.text = some inside ∧
        braceBalance inside = 0) ∧
    ∀ receiver document,
      (∀ block ∈ locate receiver document, braceBalance block.content.statements = 0) ∧
      Split.balanceWarnings (locate receiver document) = [] := by
  constructor
  · intro cursor next position h
    obtain ⟨inside, rest, hslice, hcloses⟩ := cursor.exists_closes_of_findMatching (by decide) h
    exact ⟨inside, hslice, hcloses.braceBalance_eq_zero⟩
  · intro receiver document
    refine ⟨fun block => braceBalance_of_mem_locate, ?_⟩
    rw [Split.balanceWarnings, List.filterMap_eq_nil_iff]
    intro block hmem
    rw [Split.balanceWarning?]
    simp only [braceBalance_of_mem_locate hmem, if_true]

/-- Only a block that was not located can be warned about. -/
example : Split.balanceWarnings [⟨⟨7, 40⟩, ⟨7, 40⟩, [], "A".toList, ['a'], "if (x) \x7b".toList⟩] =
    ["Unbalanced braces (+1) in the body of Entity<A> at byte 7".toList] := by
  decide +kernel

end Block

end EntitySplit
