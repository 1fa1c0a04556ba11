import EntitySplit.Block.Locate
import EntitySplit.Proofs.Block.CallSite
import EntitySplit.Proofs.Lexical.Returns
import Mathlib.Data.List.Forall2

namespace EntitySplit

namespace Block

open Lexical
open Text (withReturns isBlank)

/-- If a computation that may fail goes on alike from what `f` makes of its
    result, so does the whole. The reading of a block is a chain of such steps. -/
theorem bind_map_of_forall {α α' β β' : Type} {x : Option α} {f : α → α'} {g : β → β'}
    {next : α → Option β} {next' : α' → Option β'}
    (h : ∀ a, x = some a → next' (f a) = (next a).map g) :
    (x.map f).bind next' = (x.bind next).map g := by
  cases x with
  | none => rfl
  | some a => exact h a rfl

/-- The content with a carriage return before each line feed. The parameter has
    no line feeds. -/
def Content.withReturns (content : Content) : Content :=
  { content with
    typeName := Text.withReturns content.typeName
    statements := Text.withReturns content.statements }

section

variable {t : Text}

/-- A parameter is read the same with carriage returns: an identifier holds no
    line break, and white space and comments are skipped with theirs. -/
theorem parameter?_withReturns (t : Text) :
    parameter? (withReturns t) = (parameter? t).map fun (name, rest) =>
      (name, withReturns rest) := by
  have hopen : Text.after? ['('] (withReturns t) = (Text.after? ['('] t).map withReturns :=
    Text.after?_withReturns (by decide) t
  rw [parameter?, parameter?, hopen]
  cases Text.after? ['('] t with
  | none => exact identifier?_withReturns t
  | some u =>
    simp only [Option.map_some, skipTrivia_withReturns, identifier?_withReturns]
    apply bind_map_of_forall
    rintro ⟨name, v⟩ -
    rw [skipTrivia_withReturns, Text.after?_withReturns (by decide), Option.map_map, Option.map_map]
    rfl

theorem suffix_skipTrivia (t : Text) : skipTrivia t <:+ t := by
  obtain ⟨trivia, heq⟩ := exists_append_skipTrivia t
  exact ⟨trivia, heq.symm⟩

theorem suffix_of_after? {mark rest : Text} (h : Text.after? mark (skipTrivia t) = some rest) :
    rest <:+ t := by
  have hrest : rest <:+ skipTrivia t := ⟨mark, (Text.eq_append_of_after? h).symm⟩
  exact hrest.trans (suffix_skipTrivia t)

theorem suffix_of_parameter? {name rest : Text}
    (h : parameter? (skipTrivia t) = some (name, rest)) : rest <:+ t := by
  obtain ⟨written, heq⟩ := Content.exists_append_of_parameter? h
  have hrest : rest <:+ skipTrivia t := ⟨written, heq.symm⟩
  exact hrest.trans (suffix_skipTrivia t)

/-- A block is read the same with carriage returns, and says the same with
    carriage returns put in. No line may end in a backslash, since the escape
    would take the carriage return instead of the line feed. -/
theorem Content.read?_withReturns (h : Unescaped t) : read? (Text.withReturns t) =
    (read? t).map fun (content, rest) => (content.withReturns, Text.withReturns rest) := by
  have hangle : matching? '<' '>' (Text.withReturns t) =
      (matching? '<' '>' t).map fun (inside, rest) =>
        (Text.withReturns inside, Text.withReturns rest) :=
    matching?_withReturns (by decide) (by decide) (by decide) h
  simp only [read?, Option.bind_eq_bind, Option.pure_def, hangle]
  apply bind_map_of_forall
  rintro ⟨argument, t₁⟩ hargument
  have hescape₁ : Unescaped t₁ := h.of_suffix
    ⟨'<' :: (argument ++ ['>']), by rw [eq_cons_append_of_matching? hargument]; simp⟩
  simp only [Text.trim_withReturns, Text.isEmpty_withReturns]
  split
  · rfl
  · rw [skipTrivia_withReturns, Text.after?_withReturns (by decide)]
    apply bind_map_of_forall
    intro t₂ hopen
    have hescape₂ := hescape₁.of_suffix (suffix_of_after? hopen)
    rw [skipTrivia_withReturns, parameter?_withReturns]
    apply bind_map_of_forall
    rintro ⟨name, t₃⟩ hparameter
    have hescape₃ := hescape₂.of_suffix (suffix_of_parameter? hparameter)
    rw [skipTrivia_withReturns, Text.after?_withReturns (by decide)]
    apply bind_map_of_forall
    intro t₄ harrow
    have hescape₄ := (hescape₃.of_suffix (suffix_of_after? harrow)).of_suffix (suffix_skipTrivia t₄)
    rw [skipTrivia_withReturns, matching?_withReturns (by decide) (by decide) (by decide) hescape₄]
    apply bind_map_of_forall
    rintro ⟨statements, t₅⟩ -
    rw [skipTrivia_withReturns, Text.after?_withReturns (by decide)]
    apply bind_map_of_forall
    rintro t₆ -
    rw [skipTrivia_withReturns, Text.after?_withReturns (by decide)]
    apply bind_map_of_forall
    rintro t₇ -
    rfl

end

section

variable {receiver : Text}

/-- A start stays one with carriage returns put into its white space. The
    receiver must have no line break, as it is looked for as given. -/
theorem afterStart?_withReturns (hreceiver : ∀ c ∈ receiver, c ≠ '\r' ∧ c ≠ '\n')
    (previous : Option Char) (t : Text) :
    afterStart? receiver previous
      (withReturns t) = (afterStart? receiver previous t).map withReturns := by
  unfold afterStart?
  split
  · rfl
  · rw [Text.after?_withReturns hreceiver]
    apply bind_map_of_forall
    rintro t₁ -
    rw [Text.dropWhile_withReturns Text.isBlank_return, Text.after?_withReturns (by decide)]
    apply bind_map_of_forall
    rintro t₂ -
    rw [Text.dropWhile_withReturns Text.isBlank_return, Text.after?_withReturns (by decide)]
    apply bind_map_of_forall
    rintro t₃ -
    rw [Text.dropWhile_withReturns Text.isBlank_return, Text.after?_withReturns (by decide)]

/-- No block starts at a character that the receiver does not begin with. The
    receiver is not empty here. -/
theorem afterStart?_eq_none {m c : Char} (hne : m ≠ c) (more : Text) (previous : Option Char)
    (t : Text) :
    afterStart? (m :: more) previous (c :: t) = none := by
  unfold afterStart?
  split
  · rfl
  · rw [Text.after?_cons_of_ne hne]
    rfl

/-- The text that the search keeps, its last character first, with carriage
    returns: each of them comes behind its line feed in this order. -/
def keptWithReturns (kept : Text) : Text :=
  (withReturns kept.reverse).reverse

theorem keptWithReturns_cons {c : Char} (hc : c ≠ '\n') (kept : Text) :
    keptWithReturns (c :: kept) = c :: keptWithReturns kept := by
  rw [keptWithReturns, List.reverse_cons, Text.withReturns_append, Text.withReturns_cons hc]
  simp [keptWithReturns]

theorem keptWithReturns_feed (kept : Text) :
    keptWithReturns ('\n' :: kept) = '\n' :: '\r' :: keptWithReturns kept := by
  rw [keptWithReturns, List.reverse_cons, Text.withReturns_append]
  simp [keptWithReturns]

theorem reverse_keptWithReturns (kept : Text) :
    (keptWithReturns kept).reverse = withReturns kept.reverse :=
  List.reverse_reverse _

theorem keptWithReturns_append {indent : Text} (hindent : ∀ c ∈ indent, Text.isIndent c = true)
    (kept : Text) :
    keptWithReturns (indent ++ kept) = indent ++ keptWithReturns kept := by
  induction indent with
  | nil => rfl
  | cons c indent ih =>
    have hc : c ≠ '\n' := by
      rintro rfl
      exact absurd (hindent _ List.mem_cons_self) (by decide)
    rw [List.cons_append, keptWithReturns_cons hc,
      ih fun d hd => hindent d (List.mem_cons_of_mem c hd)]
    rfl

theorem keptWithReturns_reverse_append (t kept : Text) :
    keptWithReturns (t.reverse ++ kept) = (withReturns t).reverse ++ keptWithReturns kept := by
  simp [keptWithReturns]

theorem head?_keptWithReturns (kept : Text) : (keptWithReturns kept).head? = kept.head? := by
  cases kept with
  | nil => rfl
  | cons c kept =>
    by_cases hc : c = '\n'
    · subst hc
      rw [keptWithReturns_feed]
      rfl
    · rw [keptWithReturns_cons hc]
      rfl

/-- The cut before a statement falls at the same place with carriage returns,
    as it takes a line break of one or of two characters. A carriage return
    that was there before would change this. -/
theorem cutCallSite_withReturns {kept : Text} (hreturn : '\r' ∉ kept) (atStart : Bool) :
    cutCallSite atStart (keptWithReturns kept) =
      (withReturns (cutCallSite atStart kept).1, withReturns (cutCallSite atStart kept).2) := by
  have hreverse {indent : Text} (hindent : ∀ c ∈ indent, Text.isIndent c = true) :
      withReturns indent.reverse = indent.reverse := by
    apply Text.withReturns_of_not_mem
    intro hmem
    exact absurd (hindent _ (List.mem_reverse.1 hmem)) (by decide)
  cases leadIn kept with
  | afterReturn rest hindent => exact absurd (by simp) hreturn
  | @afterFeed indent rest hindent hrest =>
    rw [keptWithReturns_append hindent, keptWithReturns_feed, cutCallSite_return hindent,
      cutCallSite_feed hindent atStart hrest, reverse_keptWithReturns, Text.withReturns_append,
      hreverse hindent]
    rfl
  | first hindent =>
    have hkept := keptWithReturns_append hindent []
    rw [List.append_nil] at hkept
    rw [hkept, keptWithReturns, List.reverse_nil, Text.withReturns_nil, List.reverse_nil,
      List.append_nil, cutCallSite_first hindent]
    cases atStart with
    | true => rw [if_pos rfl, hreverse hindent]; rfl
    | false => rw [if_neg (by decide), hreverse hindent]; rfl
  | @afterOther indent c rest hindent hc hfeed =>
    have hkept : keptWithReturns (indent ++ c :: rest) = indent ++ c :: keptWithReturns rest := by
      rw [keptWithReturns_append hindent, keptWithReturns_cons hfeed]
    rw [cutCallSite_other hindent atStart hc hfeed, ← reverse_keptWithReturns, hkept,
      cutCallSite_other hindent atStart hc hfeed]
    rfl

end

/-- The excerpt with a carriage return before each line feed, part by part. -/
def Excerpt.withReturns (excerpt : Excerpt) : Excerpt where
  lead := Text.withReturns excerpt.lead
  callSite := Text.withReturns excerpt.callSite
  statement := Text.withReturns excerpt.statement
  content := excerpt.content.withReturns

/-- The dissection with a carriage return before each line feed, excerpt by
    excerpt. -/
def Dissection.withReturns (dissection : Dissection) : Dissection where
  excerpts := dissection.excerpts.map Excerpt.withReturns
  tail := Text.withReturns dissection.tail

section

variable {receiver kept t rest : Text} {atStart : Bool} {c : Char}

/-- Where no block starts the search keeps the character and goes on behind it. -/
theorem dissectFrom_of_no_start (hstart : afterStart? receiver kept.head? (c :: t) = none) :
    dissectFrom receiver atStart kept (c :: t) = dissectFrom receiver atStart (c :: kept) t := by
  rw [dissectFrom]
  split
  · rfl
  · next hsome =>
    rw [hstart] at hsome
    exact absurd hsome (by simp)

/-- Where a block starts but cannot be read the search goes on behind its `<`,
    keeping all that it has gone over. -/
theorem dissectFrom_of_no_content (hstart : afterStart? receiver kept.head? (c :: t) = some rest)
    (hcontent : Content.read? ('<' :: rest) = none) : dissectFrom receiver atStart kept (c :: t) =
      dissectFrom receiver atStart ((upTo rest (c :: t)).reverse ++ kept) rest := by
  rw [dissectFrom]
  split
  · next hnone =>
    rw [hstart] at hnone
    exact absurd hnone (by simp)
  · next hsome =>
    rw [hstart, Option.some.injEq] at hsome
    subst hsome
    split
    · rfl
    · next hsome =>
      rw [hcontent] at hsome
      exact absurd hsome (by simp)

/-- Where a block is read the search cuts an excerpt and goes on behind it,
    with nothing kept. -/
theorem dissectFrom_of_content {content : Content} {after : Text}
    (hstart : afterStart? receiver kept.head? (c :: t) = some rest)
    (hcontent : Content.read? ('<' :: rest) = some (content, after)) :
    dissectFrom receiver atStart kept (c :: t) =
      { excerpts := ⟨(cutCallSite atStart kept).1, (cutCallSite atStart kept).2,
        upTo after (c :: t), content⟩ ::
          (dissectFrom receiver false [] after).excerpts
        tail := (dissectFrom receiver false [] after).tail } := by
  rw [dissectFrom]
  split
  · next hnone =>
    rw [hstart] at hnone
    exact absurd hnone (by simp)
  · next hsome =>
    rw [hstart, Option.some.injEq] at hsome
    subst hsome
    split
    · next hnone =>
      rw [hcontent] at hnone
      exact absurd hnone (by simp)
    · next hsome =>
      rw [hcontent, Option.some.injEq, Prod.mk.injEq] at hsome
      obtain ⟨rfl, rfl⟩ := hsome
      rfl

/-- What stands before the rest of a text is what stands before it with
    carriage returns. That it is a rest of the text is needed. -/
theorem upTo_withReturns (h : rest <:+ t) :
    upTo (withReturns rest) (withReturns t) = withReturns (upTo rest t) := by
  obtain ⟨head, rfl⟩ := h
  rw [Text.withReturns_append, upTo_append, upTo_append]

/-- A start begins with its receiver and ends with its `<`, so it does not
    begin at a character other than the receiver's first. -/
theorem visible_of_afterStart? {m d : Char} {more : Text} {previous : Option Char} (hd : m ≠ d)
    (hstart : afterStart? (m :: more) previous (c :: t) = some rest) :
    c ≠ d ∧ '<' :: rest <:+ c :: t := by
  constructor
  · rintro rfl
    rw [afterStart?_eq_none hd] at hstart
    exact absurd hstart (by simp)
  · obtain ⟨head, hhead⟩ := exists_append_of_afterStart? hstart
    exact ⟨head, hhead.symm⟩

/-- A start is one with carriage returns, behind what is kept with them. The
    character at which it begins is no line feed, which would have become two
    characters. -/
theorem afterStart?_cons_withReturns (hreceiver : ∀ c ∈ receiver, c ≠ '\r' ∧ c ≠ '\n')
    (hc : c ≠ '\n') (kept t : Text) :
    afterStart? receiver (keptWithReturns kept).head? (c :: withReturns t) =
      (afterStart? receiver kept.head? (c :: t)).map withReturns := by
  rw [head?_keptWithReturns, ← Text.withReturns_cons hc, afterStart?_withReturns hreceiver]

theorem read?_cons_withReturns (hescape : Unescaped ('<' :: t)) :
    Content.read? ('<' :: withReturns t) =
    (Content.read? ('<' :: t)).map fun (content, after) =>
      (content.withReturns, withReturns after) := by
  rw [← Content.read?_withReturns hescape, Text.withReturns_cons (by decide)]

theorem upTo_cons_withReturns (hc : c ≠ '\n') (h : rest <:+ c :: t) :
    upTo (withReturns rest) (c :: withReturns t) = withReturns (upTo rest (c :: t)) := by
  rw [← upTo_withReturns h, Text.withReturns_cons hc]

/-- The search cuts the text at the same places. The induction is that of the
    search; without a receiver a start could begin at a line feed, and the cut
    would fall between it and its carriage return. -/
theorem dissectFrom_withReturns (hne : receiver ≠ [])
    (hreceiver : ∀ c ∈ receiver, c ≠ '\r' ∧ c ≠ '\n') (hkept : '\r' ∉ kept) (hreturn : '\r' ∉ t)
    (hescape : Unescaped t) :
    dissectFrom receiver atStart (keptWithReturns kept) (withReturns t) =
      (dissectFrom receiver atStart kept t).withReturns := by
  obtain ⟨m, more, rfl⟩ := List.exists_cons_of_ne_nil hne
  obtain ⟨hm, hm'⟩ := hreceiver m List.mem_cons_self
  fun_induction dissectFrom (m :: more) atStart kept t with
  | case1 =>
    rw [Text.withReturns_nil, dissectFrom, Dissection.withReturns, reverse_keptWithReturns]
    rfl
  | case2 atStart kept c t hstart ih =>
    rw [List.mem_cons, not_or] at hreturn
    have hbehind :=
      ih (by simp [hkept, hreturn.1]) hreturn.2 (hescape.of_suffix (List.suffix_cons c t))
    by_cases hc : c = '\n'
    · -- One step here is two there, and no start begins at either character of a line break.
      subst hc
      rw [Text.withReturns_feed, dissectFrom_of_no_start (afterStart?_eq_none hm _ _ _),
        dissectFrom_of_no_start (afterStart?_eq_none hm' _ _ _), ← keptWithReturns_feed, hbehind]
    · have hstart' := afterStart?_cons_withReturns hreceiver hc kept t
      rw [hstart] at hstart'
      rw [Text.withReturns_cons hc, dissectFrom_of_no_start hstart', ← keptWithReturns_cons hc,
        hbehind]
  | case3 atStart kept c t rest hstart hcontent ih =>
    obtain ⟨hc, hrest⟩ := visible_of_afterStart? hm' hstart
    have hstart' := afterStart?_cons_withReturns hreceiver hc kept t
    have hcontent' := read?_cons_withReturns (hescape.of_suffix hrest)
    rw [hstart] at hstart'
    rw [hcontent] at hcontent'
    have hsuffix : rest <:+ c :: t := (List.suffix_cons '<' rest).trans hrest
    have hkept' : '\r' ∉ (upTo rest (c :: t)).reverse ++ kept := by
      intro hmem
      rcases List.mem_append.1 hmem with hmem | hmem
      · exact hreturn (List.mem_of_mem_take (List.mem_reverse.1 hmem))
      · exact hkept hmem
    rw [Text.withReturns_cons hc, dissectFrom_of_no_content hstart' hcontent',
      upTo_cons_withReturns hc hsuffix, ← keptWithReturns_reverse_append,
      ih hkept' (fun hmem => hreturn (hsuffix.subset hmem)) (hescape.of_suffix hsuffix)]
  | case4 atStart kept c t rest hstart content after hcontent site others excerpt =>
    rename_i ih
    obtain ⟨hc, hrest⟩ := visible_of_afterStart? hm' hstart
    have hstart' := afterStart?_cons_withReturns hreceiver hc kept t
    have hcontent' := read?_cons_withReturns (hescape.of_suffix hrest)
    rw [hstart] at hstart'
    rw [hcontent] at hcontent'
    have hsuffix : after <:+ c :: t := by
      obtain ⟨body, hbody⟩ := Content.exists_append_of_read? hcontent
      have hafter : after <:+ '<' :: rest := ⟨'<' :: (body ++ [';']), by rw [hbody]; simp⟩
      exact hafter.trans hrest
    have hothers :=
      ih (by simp) (fun hmem => hreturn (hsuffix.subset hmem)) (hescape.of_suffix hsuffix)
    have hnil : keptWithReturns [] = [] := rfl
    rw [hnil] at hothers
    rw [Text.withReturns_cons hc, dissectFrom_of_content hstart' hcontent',
      upTo_cons_withReturns hc hsuffix, hothers, cutCallSite_withReturns hkept]
    rfl

/-- A document with carriage returns put in is cut into the excerpts of the
    document with carriage returns put in. The premises are those of
    `dissectFrom_withReturns`. -/
theorem dissect_withReturns (hne : receiver ≠ []) (hreceiver : ∀ c ∈ receiver, c ≠ '\r' ∧ c ≠ '\n')
    (hreturn : '\r' ∉ t) (hescape : Unescaped t) :
    dissect receiver (withReturns t) = (dissect receiver t).withReturns := by
  have hnil : keptWithReturns [] = [] := rfl
  rw [dissect, dissect, ← hnil, dissectFrom_withReturns hne hreceiver (by simp) hreturn hescape,
    hnil]

/-- A block of a document and the block of the document with carriage returns.
    They say the same, each with the line breaks of its document; where they
    stand differs. -/
structure Returned (block block' : Block) : Prop where
  callSite : block'.callSite = withReturns block.callSite
  content : block'.content = block.content.withReturns

/-- Excerpts with carriage returns put in make the blocks that correspond to
    those of the excerpts, wherever each of the two rows begins. -/
theorem returned_ofExcerpts (position position' : Nat) (excerpts : List Excerpt) :
    List.Forall₂ Returned
    (ofExcerpts position excerpts) (ofExcerpts position' (excerpts.map Excerpt.withReturns)) := by
  induction excerpts generalizing position position' with
  | nil => exact .nil
  | cons excerpt excerpts ih => exact .cons ⟨rfl, rfl⟩ (ih _ _)

/-- The blocks of a document and those of the document with carriage returns
    correspond one to one, in their order. -/
theorem returned_locate (hne : receiver ≠ []) (hreceiver : ∀ c ∈ receiver, c ≠ '\r' ∧ c ≠ '\n')
    (hreturn : '\r' ∉ t) (hescape : Unescaped t) :
    List.Forall₂ Returned (locate receiver t) (locate receiver (withReturns t)) := by
  rw [locate, locate, dissect_withReturns hne hreceiver hreturn hescape]
  exact returned_ofExcerpts 0 0 _

end

end Block

end EntitySplit
