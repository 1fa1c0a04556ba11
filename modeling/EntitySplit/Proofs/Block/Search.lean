import EntitySplit.Proofs.Block.Placement
import EntitySplit.Proofs.Block.StartMatch

namespace EntitySplit

namespace Block

/-- A document has a block start at the byte `start`, and the `<` of that start
    is the byte `angle`. No word runs into the receiver. -/
def StartsAt (receiver document : Text) (start angle : Nat) : Prop :=
  ∃ before head inner, document = before ++ (head ++ '<' :: inner) ∧ IsStart receiver head ∧
    before.getLast?.any Text.isWord = false ∧ before.size = start ∧ (before ++ head).size = angle

/-- A block begins at `start` and says `content`, or it began earlier and goes
    on beyond `angle`. In the second case the start is one in the body of the
    block or in its type argument. -/
def Covers (block : Block) (start angle : Nat) (content : Content) : Prop :=
  (block.outer.start = start ∧ block.content = content) ∨
    (block.outer.start < start ∧ angle < block.outer.stop)

theorem outer_ofExcerpt_cutCallSite (atStart : Bool) (kept statement : Text) (content : Content)
    (position : Nat) :
    (ofExcerpt position
      ⟨(cutCallSite atStart kept).1, (cutCallSite atStart kept).2, statement, content⟩).outer =
      ⟨position + Text.size kept.reverse, position + Text.size kept.reverse + statement.size⟩ := by
  rw [← cutCallSite_append atStart kept, Text.size_append, ← Nat.add_assoc, ofExcerpt]

section

variable {receiver : Text} (hword : ∀ c ∈ receiver, Text.isWord c = true)
include hword

/-- The text behind the `<` of a block ends with `;`, which no start has: a
    start there is in it or behind it. The receiver must be a word, as one with
    a `;` could go over the end. -/
theorem behind_or_within {body rest v head inner : Text} (hstart : IsStart receiver head)
    (heq : body ++ ';' :: rest = v ++ (head ++ '<' :: inner)) :
    (∃ w, v = body ++ ';' :: w ∧ rest = w ++ (head ++ '<' :: inner)) ∨
      ∃ w, body = v ++ head ++ w := by
  have hsemicolon := semicolon_not_mem_of_isStart hword hstart
  rcases List.append_eq_append_iff.1 heq with ⟨w, hv, hafter⟩ | ⟨w, hbody, hhead⟩
  · cases w with
    | nil =>
      cases head with
      | nil => simp at hafter
      | cons c head =>
        obtain ⟨rfl, -⟩ := List.cons.inj hafter
        exact absurd (List.mem_cons_self ..) hsemicolon
    | cons c w =>
      obtain ⟨rfl, hrest⟩ := List.cons.inj hafter
      exact Or.inl ⟨w, hv, hrest⟩
  · right
    rcases List.append_eq_append_iff.1 hhead with ⟨x, hw, -⟩ | ⟨x, hhead, hafter⟩
    · exact ⟨x, by rw [hbody, hw, List.append_assoc]⟩
    · cases x with
      | nil => simp at hafter
      | cons c x =>
        obtain ⟨rfl, -⟩ := List.cons.inj hafter
        exact absurd (by simp [hhead]) hsemicolon

/-- Where the text goes on with a start, every other start in it is that one or
    behind its `<`. Distinct starts do not overlap, even where the receiver is
    the word `Entity`. -/
theorem same_or_behind (hne : receiver ≠ []) {t u head inner inner' : Text} {previous : Option Char}
    (hsome : afterStart? receiver previous t = some inner') (hstart : IsStart receiver head)
    (ht : t = u ++ (head ++ '<' :: inner)) (hlast : u.getLast?.any Text.isWord = false) :
    (u = [] ∧ inner' = inner) ∨ ∃ head' v,
      t = head' ++ '<' :: inner' ∧ u = head' ++ '<' :: v ∧
        inner' = v ++ (head ++ '<' :: inner) := by
  obtain ⟨hprevious, head', hstart', heq⟩ := afterStart?_eq_some_iff.1 hsome
  by_cases hu : u = []
  · left
    have hsame : afterStart? receiver previous t = some inner := by
      rw [afterStart?_eq_some_iff]
      exact ⟨hprevious, head, hstart, by rw [ht, hu, List.nil_append]⟩
    rw [hsome, Option.some.injEq] at hsame
    exact ⟨hu, hsame⟩
  · right
    obtain ⟨v, hv, hinner⟩ := exists_append_of_later_call hne hword hstart' (hstart.isCall _)
      (heq.symm.trans ht) hu hlast
    exact ⟨head', v, heq, hv, hinner⟩

/-- The search covers every start that a block follows. It goes on behind the
    `<` of a start that none follows and behind the `;` of a block, and no
    other start reaches over either place. The induction is along the search,
    with the text before the start split into what is kept and what is still to
    come. -/
theorem exists_covers_of_start (hne : receiver ≠ []) {kept t head inner rest : Text}
    {atStart : Bool} {content : Content} (hstart : IsStart receiver head)
    (hcontent : Content.read? ('<' :: inner) = some (content, rest)) (position : Nat) (u : Text)
    (ht : t = u ++ (head ++ '<' :: inner))
    (hlast : (kept.reverse ++ u).getLast?.any Text.isWord = false) :
    ∃ block ∈ ofExcerpts position (dissectFrom receiver atStart kept t).excerpts,
      block.Covers (position + Text.size (kept.reverse ++ u))
        (position + Text.size (kept.reverse ++ u ++ head))
        content := by
  fun_induction dissectFrom receiver atStart kept t generalizing position u with
  | case1 => simp at ht
  | case2 atStart kept c t hnone ih =>
    cases u with
    | nil =>
      have hsome : afterStart? receiver kept.head? (c :: t) = some inner := by
        rw [afterStart?_eq_some_iff]
        exact ⟨by simpa using hlast, head, hstart, ht⟩
      rw [hnone] at hsome
      exact absurd hsome (by simp)
    | cons d u =>
      obtain ⟨rfl, htail⟩ := List.cons.inj ht
      have h := ih position u htail (by simpa using hlast)
      simpa using h
  | case3 atStart kept c t inner' hsome hnone ih =>
    have hlast' := Text.any_getLast?_of_append hlast
    -- The start found here has no block, so the one that has a block stands behind it.
    rcases same_or_behind hword hne hsome hstart ht hlast' with
      ⟨-, rfl⟩ | ⟨head', v, heq, rfl, hinner⟩
    · rw [hnone] at hcontent
      exact absurd hcontent (by simp)
    · have hpassed : upTo inner' (c :: t) = head' ++ ['<'] := upTo_eq_of_append (by simp [heq])
      rw [hpassed] at ih
      have h := ih position v hinner (by simpa using hlast)
      simpa [hpassed] using h
  | case4 atStart kept c t inner' hsome content' rest' hcontent' site others =>
    rename_i excerpt ih
    have hlast' := Text.any_getLast?_of_append hlast
    have houter : (ofExcerpt position excerpt).outer =
        ⟨position + Text.size kept.reverse,
          position + Text.size kept.reverse + Text.size (upTo rest' (c :: t))⟩ :=
      outer_ofExcerpt_cutCallSite atStart kept (upTo rest' (c :: t)) content' position
    rw [ofExcerpts_cons]
    -- The start is that of the block found here, or it stands behind this block or within it.
    rcases same_or_behind hword hne hsome hstart ht hlast' with
      ⟨rfl, rfl⟩ | ⟨head', v, heq, rfl, hinner⟩
    · rw [hcontent, Option.some.injEq, Prod.mk.injEq] at hcontent'
      refine ⟨_, List.mem_cons_self .., Or.inl ⟨?_, hcontent'.1.symm⟩⟩
      rw [houter, List.append_nil]
    · obtain ⟨body, hbody⟩ := Content.exists_append_of_read? hcontent'
      rw [List.cons.injEq] at hbody
      have hstatement : upTo rest' (c :: t) = head' ++ '<' :: (body ++ [';']) :=
        upTo_eq_of_append (by rw [heq, hbody.2]; simp)
      have hexcerpt : excerpt.text = kept.reverse ++ (head' ++ '<' :: (body ++ [';'])) := by
        simp only [excerpt, site, Excerpt.text, cutCallSite_append, hstatement]
      rcases behind_or_within hword hstart (hbody.2.symm.trans hinner) with
        ⟨w, rfl, hrest⟩ | ⟨w, hw⟩
      · have hw : (List.reverse [] ++ w).getLast?.any Text.isWord = false := by
          apply Text.any_getLast?_of_append (s := kept.reverse ++ head' ++ '<' :: (body ++ [';']))
          simpa using hlast
        obtain ⟨block, hmem, hcovers⟩ := ih (position + excerpt.text.size) w hrest hw
        refine ⟨block, List.mem_cons_of_mem _ hmem, ?_⟩
        rw [hexcerpt] at hcovers
        simpa [Nat.add_assoc] using hcovers
      · refine ⟨_, List.mem_cons_self .., Or.inr ⟨?_, ?_⟩⟩
        · have hangle := Char.utf8Size_pos '<'
          simp only [houter, Text.size_append, Text.size_cons]
          omega
        · have hsemicolon := Char.utf8Size_pos ';'
          simp only [houter, hstatement, hw, Text.size_append, Text.size_cons]
          omega

end

/-- A block that stands in a document begins with a start, and what is read
    behind this start is what the block says. -/
theorem StandsBetween.startsAt {receiver document lead statement rest : Text} {block : Block}
    (h : StandsBetween receiver document block lead statement rest) :
    ∃ angle, StartsAt receiver document block.outer.start angle ∧
      (Text.from? document angle).bind Content.read? = some (block.content, rest) := by
  obtain ⟨inner, hstart, hcontent⟩ := h.reads
  obtain ⟨hprevious, head, hhead, heq⟩ := afterStart?_eq_some_iff.1 hstart
  have hdocument : document = lead ++ block.callSite ++ (head ++ '<' :: inner) := by
    rw [h.document_eq, List.append_assoc, heq]
  refine ⟨(lead ++ block.callSite ++ head).size, ?_, ?_⟩
  · exact ⟨lead ++ block.callSite, head, inner, hdocument, hhead, hprevious, h.outer_start.symm,
      rfl⟩
  · have hangle : Text.from? document (lead ++ block.callSite ++ head).size = some ('<' :: inner) :=
      Text.from?_eq_some_iff.2 ⟨_, by simp [hdocument], rfl⟩
    rw [hangle, Option.bind_some, hcontent]

/-- No place is in two blocks. That the blocks lie apart is all that is needed. -/
theorem eq_of_mem_locate_of_within {receiver document : Text} {block other : Block} {position : Nat}
    (hmem : block ∈ locate receiver document) (hother : other ∈ locate receiver document)
    (hin : block.outer.start ≤ position ∧ position < block.outer.stop)
    (hin' : other.outer.start ≤ position ∧ position < other.outer.stop) : other = block := by
  have hpairs := pairwise_locate receiver document
  have hfits := (fitsIn_of_mem_locate hmem).removal_start_le
  have hfits' := (fitsIn_of_mem_locate hother).removal_start_le
  obtain ⟨i, hi, rfl⟩ := List.getElem_of_mem hmem
  obtain ⟨j, hj, rfl⟩ := List.getElem_of_mem hother
  rw [List.pairwise_iff_getElem] at hpairs
  rcases Nat.lt_trichotomy i j with hlt | rfl | hlt
  · have h := hpairs i j hi hj hlt
    omega
  · rfl
  · have h := hpairs j i hj hi hlt
    omega

/-- The blocks of a document are what its starts say they are. Every start with
    a block behind it is the start of a located block or stands within one that
    starts earlier, and within no other; every located block has such a start,
    says what is read behind it, and ends where the reading does. The document
    is arbitrary, comments and literals included. -/
theorem locate_complete_and_sound {receiver : Text} (hne : receiver ≠ [])
    (hword : ∀ c ∈ receiver, Text.isWord c = true) (document : Text) :
    (∀ start angle content rest, StartsAt receiver document start angle →
      (Text.from? document angle).bind Content.read? = some (content, rest) →
      ∃ block ∈ locate receiver document, block.Covers start angle content ∧
        ∀ other ∈ locate receiver document,
          other.outer.start ≤ start ∧ start < other.outer.stop → other = block) ∧
    ∀ block ∈ locate receiver document, ∃ angle rest,
      StartsAt receiver document block.outer.start angle ∧
      (Text.from? document angle).bind Content.read? = some (block.content, rest) ∧
      Text.from? document block.outer.stop = some rest := by
  constructor
  · rintro start angle content rest
      ⟨before, head, inner, hdocument, hstart, hprevious, rfl, rfl⟩ hread
    have hangle : Text.from? document (before ++ head).size = some ('<' :: inner) :=
      Text.from?_eq_some_iff.2 ⟨_, by simp [hdocument], rfl⟩
    rw [hangle, Option.bind_some] at hread
    have hlast : (List.reverse [] ++ before).getLast?.any Text.isWord = false := by
      simpa using hprevious
    obtain ⟨block, hmem, hcovers⟩ : ∃ block ∈ locate receiver document, block.Covers
        (0 + Text.size (List.reverse [] ++ before))
          (0 + Text.size (List.reverse [] ++ before ++ head)) content :=
      exists_covers_of_start hword hne hstart hread 0 before hdocument hlast
    simp only [List.reverse_nil, List.nil_append, Nat.zero_add] at hcovers
    refine ⟨block, hmem, hcovers, ?_⟩
    intro other hother hin
    have hlt := (fitsIn_of_mem_locate hmem).outer_start_lt
    apply eq_of_mem_locate_of_within hmem hother ?_ hin
    rcases hcovers with ⟨heq, -⟩ | ⟨hstart, hstop⟩
    · omega
    · rw [Text.size_append] at hstop
      omega
  · intro block hmem
    obtain ⟨lead, statement, rest, h⟩ := exists_standsBetween hmem
    obtain ⟨angle, hstarts, hread⟩ := h.startsAt
    exact ⟨angle, rest, hstarts, hread,
      Text.from?_eq_some_iff.2 ⟨_, h.document_eq, h.outer_stop.symm⟩⟩

/-- The first start has no block behind it, and the text that was read for one
    holds the block of `B` with the block of `C` in its body. The start of `C`
    is covered by the block of `B` alone. -/
theorem nested_start_covered_once :
    ∃ block ∈ locate ['m'] "m.Entity<A(m.Entity<B>(b=>\x7bm.Entity<C>(c=>\x7b\x7d);\x7d);".toList,
      block.Covers 27 35 ⟨['C'], ['c'], []⟩ ∧
        ∀ other ∈ locate ['m']
          "m.Entity<A(m.Entity<B>(b=>\x7bm.Entity<C>(c=>\x7b\x7d);\x7d);".toList,
            other.outer.start ≤ 27 ∧ 27 < other.outer.stop → other = block := by
  have hstarts :
    StartsAt ['m'] "m.Entity<A(m.Entity<B>(b=>\x7bm.Entity<C>(c=>\x7b\x7d);\x7d);".toList 27 35 :=
    ⟨"m.Entity<A(m.Entity<B>(b=>\x7b".toList, "m.Entity".toList, "C>(c=>\x7b\x7d);\x7d);".toList, by
      decide +kernel,
      ⟨[], [], [], by simp, by decide +kernel⟩, by
        decide +kernel, by decide +kernel, by decide +kernel⟩
  have hword : ∀ c ∈ ['m'], Text.isWord c = true := List.all_eq_true.1 (by decide)
  exact (locate_complete_and_sound (by decide) hword _).1 27 35 _ "\x7d);".toList hstarts
    (by decide +kernel)

end Block

end EntitySplit
