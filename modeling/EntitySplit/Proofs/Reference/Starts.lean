import EntitySplit.Proofs.Block.Excerpts
import EntitySplit.Proofs.Block.Starts
import EntitySplit.Proofs.Reference.Rewriting
import EntitySplit.Split.Run

namespace EntitySplit

namespace Edit

/-- The bytes that edits put in, whatever they take out. -/
def inserted (edits : List Edit) : Nat :=
  (edits.map fun edit => edit.text.size).sum

/-- The bytes that edits take out, whatever they put in. -/
def takenOut (edits : List Edit) : Nat :=
  (edits.map fun edit => edit.span.stop - edit.span.start).sum

/-- Where the byte `position` of a document is once the edits that end before
    it are made. For a position within an edit this means nothing. -/
def moved (edits : List Edit) (position : Nat) : Nat :=
  let before := edits.filter (·.span.stop ≤ position)
  position + inserted before - takenOut before

def movedSpan (edits : List Edit) (span : Span) : Span :=
  ⟨moved edits span.start, moved edits span.stop⟩

theorem inserted_append (edits others : List Edit) :
    inserted (edits ++ others) = inserted edits + inserted others := by
  rw [inserted, List.map_append, List.sum_append, inserted, inserted]

theorem takenOut_append (edits others : List Edit) :
    takenOut (edits ++ others) = takenOut edits + takenOut others := by
  rw [takenOut, List.map_append, List.sum_append, takenOut, takenOut]

/-- Between edits a position moves as far as those before it say; those behind
    it do not count. -/
theorem moved_append {edits others : List Edit} {position : Nat}
    (hbefore : ∀ edit ∈ edits, edit.span.stop ≤ position)
    (hbehind : ∀ edit ∈ others, position < edit.span.stop) :
    moved (edits ++ others) position = position + inserted edits - takenOut edits := by
  have hfirst : edits.filter (·.span.stop ≤ position) = edits := by
    rw [List.filter_eq_self]
    exact fun edit hedit => decide_eq_true (hbefore edit hedit)
  have hsecond : others.filter (·.span.stop ≤ position) = [] := by
    rw [List.filter_eq_nil_iff]
    exact fun edit hedit hle => Nat.not_le_of_lt (hbehind edit hedit) (of_decide_eq_true hle)
  rw [moved, List.filter_append, hfirst, hsecond, List.append_nil]

end Edit

namespace Block

/-- Whether a span lies outside all blocks. A start that lies across the edge
    of a block is neither inside nor outside. -/
def outsideAll (blocks : List Block) (span : Span) : Bool :=
  blocks.all fun block => span.stop ≤ block.outer.start || block.outer.stop ≤ span.start

end Block

namespace Reference

open Block

/-- An excerpt with a reference in the place of its statement. The lead and the
    call site stay. -/
def replaced (settings : Settings) (excerpt : Excerpt) : Text :=
  excerpt.lead ++ excerpt.callSite ++ statement settings (ofExcerpt 0 excerpt)

/-- The edit that puts a reference in the place of a block, with the call site
    that the removal takes out. -/
def replacement (settings : Settings) (block : Block) : Edit :=
  ⟨block.removal, block.callSite ++ statement settings block⟩

/-- Where each block has its own reference, each edit is the replacement of its
    block, whatever the line ending is. -/
theorem edits_inPlace {settings : Settings} (hmode : settings.referenceMode = .inPlace)
    (lineEnding : Text) (blocks : List Block) :
    edits settings lineEnding blocks = blocks.map (replacement settings) := by
  simp only [edits, hmode]
  rfl

/-- The rewritten document is the excerpts with references in the place of
    their statements, and the tail. The positions of the blocks are not in it. -/
theorem interleave_replaced (settings : Settings) (position : Nat) (excerpts : List Excerpt)
    (tail : Text) :
    Text.interleave (excerpts.map Excerpt.lead ++ [tail])
      ((ofExcerpts position excerpts).map fun block => block.callSite ++ statement settings block) =
      excerpts.flatMap (replaced settings) ++ tail := by
  induction excerpts generalizing position with
  | nil => simp [ofExcerpts, Text.interleave]
  | cons excerpt excerpts ih =>
    rw [ofExcerpts_cons, List.map_cons, List.map_cons, List.cons_append, Text.interleave, ih,
      List.flatMap_cons, replaced]
    simp only [List.append_assoc]
    rfl

section

variable {settings : Settings} {receiver document tail rest : Text} {excerpt : Excerpt}
  {before after : List Excerpt}

theorem angle_not_mem_simpleName (content : Content) : '<' ∉ content.simpleName := by
  intro hmem
  have htrim : '<' ∈ Text.trim (content.typeName.takeWhile (· != '<')) := by
    have hrun := (List.takeWhile_sublist _).subset (List.mem_reverse.1 hmem)
    exact List.mem_reverse.1 hrun
  obtain ⟨left, right, heq, -⟩ := Text.isTrim_trim (content.typeName.takeWhile (· != '<'))
  have htaken : '<' ∈ content.typeName.takeWhile (· != '<') := by
    rw [heq]
    exact List.mem_append_left _ (List.mem_append_right _ htrim)
  exact absurd (List.all_eq_true.1 List.all_takeWhile '<' htaken) (by decide)

/-- The statement that replaces a block has no `<`, which every start ends
    with. The simple name of a type is cut at its first `<`, and the receiver
    is a word; of the suffix it has to be asked. -/
theorem angle_not_mem_statement (hword : ∀ c ∈ settings.receiver, Text.isWord c = true)
    (hsuffix : '<' ∉ settings.suffix) (block : Block) : '<' ∉ statement settings block := by
  intro hmem
  rw [statement, ConfigurationClass.nameFor] at hmem
  simp only [List.mem_append] at hmem
  rcases hmem with ((hmem | hmem) | hmem | hmem) | hmem
  · exact absurd (hword '<' hmem) (by decide)
  · exact absurd hmem (by decide)
  · exact angle_not_mem_simpleName block.content hmem
  · exact hsuffix hmem
  · exact absurd hmem (by decide)

/-- The statement that replaces a block calls on the receiver, like the block
    it replaces. So a start that goes over the edge before the one would go
    over the edge before the other. -/
theorem isCall_statement (settings : Settings) (block : Block) (rest : Text) :
    IsCall settings.receiver (statement settings block ++ rest) :=
  ⟨[], "ApplyConfiguration(new ".toList ++ ConfigurationClass.nameFor settings block ++
    "());".toList ++ rest,
    by simp, by simp [statement]⟩

/-- The statement that replaces a block ends with `;`, as the block does. -/
theorem exists_append_semicolon (settings : Settings) (block : Block) :
    ∃ body, statement settings block = body ++ [';'] :=
  ⟨settings.receiver ++ ".ApplyConfiguration(new ".toList ++
    ConfigurationClass.nameFor settings block ++
    "()".toList ++ [')'], by simp [statement]⟩

/-- Where an excerpt can be cut without cutting a start: before its statement
    and behind it. Before it no word runs into the receiver, and behind it
    stands a `;`, which no start contains. -/
structure Seams (receiver : Text) (excerpt : Excerpt) (rest : Text) : Prop where
  site_last : (excerpt.lead ++ excerpt.callSite).getLast?.any Text.isWord = false
  calls : IsCall receiver (excerpt.statement ++ rest)
  ends : ∃ body, excerpt.statement = body ++ [';']

/-- Each excerpt of a document can be cut without cutting a start. That the
    search has found a block there is all that is needed. -/
theorem seams_of_excerpts (h : (dissect receiver document).excerpts = before ++ excerpt :: after) :
    Seams receiver excerpt (after.flatMap Excerpt.text ++ (dissect receiver document).tail) := by
  have hstands := standsBetween_of_excerpts h
  obtain ⟨inner, hstart, hcontent⟩ := hstands.reads
  obtain ⟨head, body, hstatement, -⟩ := exists_statement hstart hcontent
  obtain ⟨hprevious, first, hfirst, heq⟩ := afterStart?_eq_some_iff.1 hstart
  constructor
  · apply Text.any_getLast?_of_append (s := before.flatMap Excerpt.text)
    rwa [← List.append_assoc]
  · rw [heq]
    exact hfirst.isCall _
  · exact ⟨_, List.append_cancel_right hstatement⟩

section

variable (hne : settings.receiver ≠ []) (hword : ∀ c ∈ settings.receiver, Text.isWord c = true)
include hne hword

/-- The starts of a text that begins with an excerpt are those before the
    statement, those within it and those behind it; none goes over an edge. -/
theorem Seams.startsFrom_text (h : Seams settings.receiver excerpt rest) (position : Nat)
    (previous : Option Char) :
    startsFrom settings.receiver position previous (excerpt.text ++ rest) =
      startsFrom settings.receiver position previous (excerpt.lead ++ excerpt.callSite) ++
        (startsFrom settings.receiver (position + Text.size (excerpt.lead ++ excerpt.callSite))
          ((excerpt.lead ++ excerpt.callSite).getLast?.or previous) excerpt.statement ++
        startsFrom settings.receiver (position + excerpt.text.size) (some ';') rest) := by
  obtain ⟨body, hbody⟩ := h.ends
  have hends : EndsStarts settings.receiver excerpt.statement rest := by
    rw [hbody]
    exact endsStarts_semicolon hword body rest
  have hlast (other : Option Char) : excerpt.statement.getLast?.or other = some ';' := by
    simp [hbody]
  rw [Excerpt.text, List.append_assoc,
    startsFrom_append (endsStarts_call hword hne h.site_last h.calls), startsFrom_append hends,
    hlast, Text.size_append _ excerpt.statement, Nat.add_assoc]

/-- With a reference in the place of the statement, there are no starts where
    the statement was, and those before and behind are the same. The suffix
    must have no `<`, as it is part of the reference. -/
theorem Seams.startsFrom_replaced (h : Seams settings.receiver excerpt rest)
    (hsuffix : '<' ∉ settings.suffix) (after : Text) (position : Nat) (previous : Option Char) :
    startsFrom settings.receiver position previous (replaced settings excerpt ++ after) =
      startsFrom settings.receiver position previous (excerpt.lead ++ excerpt.callSite) ++
        startsFrom settings.receiver (position + (replaced settings excerpt).size)
          (some ';') after := by
  obtain ⟨body, hbody⟩ := exists_append_semicolon settings (ofExcerpt 0 excerpt)
  have hcalls := isCall_statement settings (ofExcerpt 0 excerpt) after
  have hangle := angle_not_mem_statement hword hsuffix (ofExcerpt 0 excerpt)
  have hends : EndsStarts settings.receiver (statement settings (ofExcerpt 0 excerpt)) after := by
    rw [hbody]
    exact endsStarts_semicolon hword body after
  have hlast (other : Option Char) :
    (statement settings (ofExcerpt 0 excerpt)).getLast?.or other = some ';' := by
    simp [hbody]
  rw [replaced, List.append_assoc, startsFrom_append (endsStarts_call hword hne h.site_last hcalls),
    startsFrom_append hends, hlast, startsFrom_eq_nil hangle, List.nil_append,
    Text.size_append _ (statement settings (ofExcerpt 0 excerpt)), Nat.add_assoc]

end

/-- The blocks of excerpts lie behind the position at which these begin, and a
    removal ends where its block does. -/
theorem bounds_of_mem_ofExcerpts {position : Nat} {excerpts : List Excerpt} {block : Block}
    (hmem : block ∈ ofExcerpts position excerpts) :
    position ≤ block.outer.start ∧ position ≤ block.outer.stop ∧
      block.removal.stop = block.outer.stop := by
  induction excerpts generalizing position with
  | nil => exact absurd hmem List.not_mem_nil
  | cons excerpt excerpts ih =>
    rw [ofExcerpts_cons, List.mem_cons] at hmem
    rcases hmem with rfl | hmem
    · exact ⟨by simp only [ofExcerpt, Nat.add_assoc, Nat.le_add_right],
        by simp only [ofExcerpt, Nat.add_assoc, Nat.le_add_right], rfl⟩
    · obtain ⟨hstart, hstop, hremoval⟩ := ih hmem
      exact ⟨Nat.le_trans (Nat.le_add_right _ _) hstart, Nat.le_trans (Nat.le_add_right _ _) hstop,
        hremoval⟩

/-- The block ends at the byte `position` or before it, and so does its
    removal. -/
def EndsBy (position : Nat) (block : Block) : Prop :=
  block.outer.stop ≤ position ∧ block.removal.stop ≤ position

/-- The block begins at the byte `position` or behind it, and its removal does
    not end before. -/
def BeginsFrom (position : Nat) (block : Block) : Prop :=
  position ≤ block.outer.start ∧ position < block.removal.stop

/-- The block of an excerpt ends where the excerpt ends. -/
theorem endsBy_ofExcerpt (position : Nat) (excerpt : Excerpt) :
    EndsBy (position + excerpt.text.size) (ofExcerpt position excerpt) := by
  constructor <;> simp [ofExcerpt, Excerpt.text, Nat.add_assoc]

/-- Nothing of a block is before its statement but its call site; a start in
    the lead is therefore outside all blocks that come. -/
theorem Seams.beginsFrom (h : Seams receiver excerpt rest) {position : Nat}
    {excerpts : List Excerpt} {block : Block}
    (hmem : block ∈ ofExcerpts position (excerpt :: excerpts)) :
    BeginsFrom (position + Text.size (excerpt.lead ++ excerpt.callSite)) block := by
  obtain ⟨body, hbody⟩ := h.ends
  have hsemicolon := Char.utf8Size_pos ';'
  have hstatement : 0 < excerpt.statement.size := by
    rw [hbody, Text.size_append, Text.size_cons]
    omega
  rw [ofExcerpts_cons, List.mem_cons] at hmem
  rcases hmem with rfl | hmem
  · simp only [BeginsFrom, ofExcerpt, Text.size_append]
    constructor <;> omega
  · obtain ⟨hstart, hstop, hremoval⟩ := bounds_of_mem_ofExcerpts hmem
    simp only [Excerpt.text, Text.size_append] at hstart hstop
    rw [BeginsFrom, hremoval, Text.size_append]
    constructor <;> omega

/-- How far the replacements move what is behind an excerpt: as far as those
    before it, and by the difference between the statement and its reference.
    The premise is the same equation before the excerpt, with sums in place of
    a difference. -/
theorem moved_concat {p q : Nat} {passed : List Block} (excerpt : Excerpt)
    (hmoved : p + Edit.inserted (passed.map (replacement settings)) =
      q + Edit.takenOut (passed.map (replacement settings))) :
    p + excerpt.text.size + Edit.inserted
      ((passed ++ [ofExcerpt p excerpt]).map (replacement settings)) =
      q + (replaced settings excerpt).size +
        Edit.takenOut ((passed ++ [ofExcerpt p excerpt]).map (replacement settings)) := by
  have hinserted : Edit.inserted [replacement settings (ofExcerpt p excerpt)] =
      excerpt.callSite.size + (statement settings (ofExcerpt 0 excerpt)).size := by
    simp only [Edit.inserted, replacement, List.map_cons, List.map_nil, List.sum_cons, List.sum_nil,
      Nat.add_zero, Text.size_append]
    rfl
  have htaken : Edit.takenOut [replacement settings (ofExcerpt p excerpt)] =
      excerpt.callSite.size + excerpt.statement.size := by
    simp only [Edit.takenOut, replacement, List.map_cons, List.map_nil, List.sum_cons, List.sum_nil,
      Nat.add_zero, ofExcerpt]
    omega
  rw [List.map_append, List.map_singleton, Edit.inserted_append, Edit.takenOut_append, hinserted,
    htaken, Excerpt.text, replaced]
  simp only [Text.size_append]
  omega

/-- The starts in a gap between blocks are outside all blocks and move with the
    gap. The passed blocks end before the gap and the later ones begin behind
    it. -/
theorem filter_startsFrom_gap {p q : Nat} {previous : Option Char} {gap : Text}
    {passed later : List Block} (hpassed : ∀ block ∈ passed, EndsBy p block)
    (hlater : ∀ block ∈ later, BeginsFrom (p + gap.size) block)
    (hmoved : p + Edit.inserted (passed.map (replacement settings)) =
      q + Edit.takenOut (passed.map (replacement settings))) :
    ((startsFrom receiver p previous gap).filter (outsideAll (passed ++ later))).map
      (Edit.movedSpan ((passed ++ later).map (replacement settings))) =
        startsFrom receiver q previous gap := by
  have houtside :
    ∀ span ∈ startsFrom receiver p previous gap, outsideAll (passed ++ later) span = true := by
    intro span hspan
    obtain ⟨hstart, hlt, hstop⟩ := bounds_of_mem_startsFrom hspan
    rw [outsideAll, List.all_eq_true]
    intro block hblock
    rw [Bool.or_eq_true, decide_eq_true_eq, decide_eq_true_eq]
    rcases List.mem_append.1 hblock with hblock | hblock
    · exact Or.inr (Nat.le_trans (hpassed block hblock).1 hstart)
    · exact Or.inl (Nat.le_trans hstop (hlater block hblock).1)
  have hposition {distance : Nat} (hle : distance ≤ gap.size) :
      Edit.moved ((passed ++ later).map (replacement settings)) (p + distance) = q + distance := by
    rw [List.map_append, Edit.moved_append]
    · omega
    · intro edit hedit
      obtain ⟨block, hblock, rfl⟩ := List.mem_map.1 hedit
      exact Nat.le_trans (hpassed block hblock).2 (Nat.le_add_right p distance)
    · intro edit hedit
      obtain ⟨block, hblock, rfl⟩ := List.mem_map.1 hedit
      exact Nat.lt_of_le_of_lt (Nat.add_le_add_left hle p) (hlater block hblock).2
  rw [List.filter_eq_self.2 houtside, startsFrom_eq_map receiver p, startsFrom_eq_map receiver q,
    List.map_map]
  apply List.map_congr_left
  intro span hspan
  obtain ⟨-, hlt, hstop⟩ := bounds_of_mem_startsFrom hspan
  rw [Nat.zero_add] at hstop
  rw [Function.comp_apply, Edit.movedSpan, Span.shift, Span.shift, hposition hstop,
    hposition (Nat.le_trans (Nat.le_of_lt hlt) hstop)]

/-- The starts in a block are not outside all blocks. It makes no difference to
    it which other blocks there are. -/
theorem filter_startsFrom_block {position : Nat} {previous : Option Char} {statement : Text}
    {blocks : List Block} {block : Block} (hmem : block ∈ blocks)
    (houter : block.outer = ⟨position, position + statement.size⟩) :
    (startsFrom receiver position previous statement).filter (outsideAll blocks) = [] := by
  rw [List.filter_eq_nil_iff]
  intro span hspan houtside
  obtain ⟨hstart, hlt, hstop⟩ := bounds_of_mem_startsFrom hspan
  have hblock := List.all_eq_true.1 houtside block hmem
  rw [Bool.or_eq_true, decide_eq_true_eq, decide_eq_true_eq, houter] at hblock
  dsimp only at hblock
  omega

/-- The starts of excerpts with references in the place of their statements are
    those outside all blocks, each moved by the replacements before it. The
    induction is on the excerpts; the blocks passed so far tell how far they
    have been moved. -/
theorem startsFrom_replaced (hne : settings.receiver ≠ [])
    (hword : ∀ c ∈ settings.receiver, Text.isWord c = true) (hsuffix : '<' ∉ settings.suffix)
    {p q : Nat} {previous : Option Char} {excerpts : List Excerpt} {passed : List Block}
    (hseams : ∀ before excerpt after, excerpts = before ++ excerpt :: after →
      Seams settings.receiver excerpt (after.flatMap Excerpt.text ++ tail))
    (hpassed : ∀ block ∈ passed, EndsBy p block)
    (hmoved : p + Edit.inserted (passed.map (replacement settings)) =
      q + Edit.takenOut (passed.map (replacement settings))) :
    startsFrom settings.receiver q previous (excerpts.flatMap (replaced settings) ++ tail) =
      ((startsFrom settings.receiver p previous (excerpts.flatMap Excerpt.text ++ tail)).filter
        (outsideAll (passed ++ ofExcerpts p excerpts))).map
        (Edit.movedSpan ((passed ++ ofExcerpts p excerpts).map (replacement settings))) := by
  induction excerpts generalizing p q previous passed with
  | nil => exact (filter_startsFrom_gap hpassed (by simp [ofExcerpts]) hmoved).symm
  | cons excerpt excerpts ih =>
    have hseam := hseams [] excerpt excerpts rfl
    have hothers := fun before e after (heq : excerpts = before ++ e :: after) =>
      hseams (excerpt :: before) e after (by rw [heq, List.cons_append])
    have hblocks : passed ++ ofExcerpts p (excerpt :: excerpts) =
        (passed ++ [ofExcerpt p excerpt]) ++ ofExcerpts (p + excerpt.text.size) excerpts := by
      rw [ofExcerpts_cons, List.append_assoc, List.singleton_append]
    have hpassed' :
      ∀ block ∈ passed ++ [ofExcerpt p excerpt], EndsBy (p + excerpt.text.size) block := by
      intro block hmem
      rcases List.mem_append.1 hmem with hmem | hmem
      · obtain ⟨houter, hremoval⟩ := hpassed block hmem
        exact ⟨Nat.le_trans houter (Nat.le_add_right p _),
          Nat.le_trans hremoval (Nat.le_add_right p _)⟩
      · obtain rfl := List.mem_singleton.1 hmem
        exact endsBy_ofExcerpt p excerpt
    have houter : (ofExcerpt p excerpt).outer = ⟨p + Text.size (excerpt.lead ++ excerpt.callSite),
        p + Text.size (excerpt.lead ++ excerpt.callSite) + excerpt.statement.size⟩ := by
      simp [ofExcerpt, Nat.add_assoc]
    have hblock : ofExcerpt p excerpt ∈ passed ++ ofExcerpts p (excerpt :: excerpts) := by
      simp [ofExcerpts_cons]
    rw [List.flatMap_cons, List.flatMap_cons, List.append_assoc, List.append_assoc,
      hseam.startsFrom_replaced hne hword hsuffix, hseam.startsFrom_text hne hword,
      List.filter_append, List.filter_append, List.map_append,
      filter_startsFrom_gap hpassed (fun block => hseam.beginsFrom) hmoved,
      filter_startsFrom_block hblock houter, List.nil_append, hblocks,
      ih hothers hpassed' (moved_concat excerpt hmoved)]

/-- A document without starts has no blocks, since each block begins with one. -/
theorem locate_eq_nil_of_starts (h : starts receiver document = []) :
    locate receiver document = [] := by
  rw [List.eq_nil_iff_forall_not_mem]
  intro block hmem
  obtain ⟨lead, statement, rest, hstands⟩ := exists_standsBetween hmem
  obtain ⟨angle, hstarts, -⟩ := hstands.startsAt
  have hspan : (⟨block.outer.start, angle + 1⟩ : Span) ∈ starts receiver document :=
    mem_starts_iff.2 ⟨angle, hstarts, rfl⟩
  rw [h] at hspan
  exact absurd hspan List.not_mem_nil

/-- A run over a document without blocks changes nothing, whatever the options
    are, and its report is the empty one. -/
theorem run_of_locate_eq_nil {files : Files} {source path : Path} {options : Split.Options}
    {stamp : Text} (hload : Document.load files.view source = .ok ⟨path, document⟩)
    (h : locate options.settings.receiver document = []) :
    Split.run files source options stamp =
      (files, .ok (Split.emptyReport options ⟨path, document⟩)) := by
  have hplan : Split.plan files.view options ⟨path, document⟩ = .ok none := by
    rw [Split.plan, h]
  rw [Split.run, Split.prepare, hload]
  simp only [hplan, bind, Except.bind, pure, Except.pure]
  rfl

end

/-- Where every block gives way to a reference, the starts of the document are
    those that it had outside its blocks, in their order and moved as far as
    the replacements before them say. If it had none outside, nothing more is
    located in it, and another run over it changes nothing. Only the receiver
    and the suffix are restricted: the names of the classes are free of `<` by
    themselves. -/
theorem starts_rewritten (settings : Settings) (hmode : settings.referenceMode = .inPlace)
    (hne : settings.receiver ≠ []) (hword : ∀ c ∈ settings.receiver, Text.isWord c = true)
    (hsuffix : '<' ∉ settings.suffix) (document : Text) :
    ∃ rewritten,
      Edit.applyAll?
        (edits settings (Text.lineEnding document) (locate settings.receiver document)) document =
        some rewritten ∧
      starts settings.receiver rewritten =
        ((starts settings.receiver document).filter
          (outsideAll (locate settings.receiver document))).map
          (Edit.movedSpan
            (edits settings (Text.lineEnding document) (locate settings.receiver document))) ∧
      ((∀ span ∈ starts settings.receiver document, ∃ block ∈ locate settings.receiver document,
          block.outer.start ≤ span.start ∧ span.stop ≤ block.outer.stop) →
        locate settings.receiver rewritten = [] ∧
        ∀ files source path options stamp, options.settings.receiver = settings.receiver →
          Document.load files.view source = .ok ⟨path, rewritten⟩ →
          Split.run files source options stamp =
            (files, .ok (Split.emptyReport options ⟨path, rewritten⟩))) := by
  have hdocument : (dissect settings.receiver document).excerpts.flatMap Excerpt.text ++
      (dissect settings.receiver document).tail = document :=
        text_dissect settings.receiver document
  have hstarts :
    startsFrom settings.receiver 0 none ((dissect settings.receiver document).excerpts.flatMap
        (replaced settings) ++ (dissect settings.receiver document).tail) = _ :=
      startsFrom_replaced hne hword hsuffix (fun before excerpt after => seams_of_excerpts)
        (fun block hblock => absurd hblock List.not_mem_nil) rfl
  rw [hdocument, List.nil_append, ← locate, ← edits_inPlace hmode (Text.lineEnding document),
    ← starts, ← starts] at hstarts
  refine ⟨_, ?_, hstarts, fun hwithin => ?_⟩
  · have htexts :
      (edits settings (Text.lineEnding document) (locate settings.receiver document)).map
        Edit.text =
          (ofExcerpts 0 (dissect settings.receiver document).excerpts).map fun block =>
            block.callSite ++ statement settings block := by
        rw [edits_inPlace hmode, List.map_map, locate]
        rfl
    rw [applyAll?_edits_eq_interleave, htexts, interleave_replaced]
  · have hnone :
      (starts settings.receiver document).filter (outsideAll (locate settings.receiver document)) =
        [] := by
      rw [List.filter_eq_nil_iff]
      intro span hspan houtside
      obtain ⟨block, hblock, hstart, hstop⟩ := hwithin span hspan
      obtain ⟨-, hlt, -⟩ := bounds_of_mem_startsFrom hspan
      have houter := List.all_eq_true.1 houtside block hblock
      rw [Bool.or_eq_true, decide_eq_true_eq, decide_eq_true_eq] at houter
      omega
    have hlocate := locate_eq_nil_of_starts (hstarts.trans (by rw [hnone, List.map_nil]))
    refine ⟨hlocate, fun files source path options stamp hreceiver hload => ?_⟩
    exact run_of_locate_eq_nil hload (hreceiver ▸ hlocate)

/-- A start stands in the body of the block of `A` and none outside it; the
    receiver is what starts end with. The rewritten document has no start left. -/
theorem starts_rewritten_nested : ∃ rewritten,
    Edit.applyAll? (edits { receiver := "Entity".toList, suffix := "Map".toList } ['\n']
      (locate "Entity".toList "Entity.Entity<A>(a => \x7b Entity . Entity<B>(); \x7d);".toList))
      "Entity.Entity<A>(a => \x7b Entity . Entity<B>(); \x7d);".toList = some rewritten ∧
    starts "Entity".toList rewritten = [] ∧ locate "Entity".toList rewritten = [] := by
  obtain ⟨rewritten, hrewritten, hstarts, hnone⟩ :=
    starts_rewritten { receiver := "Entity".toList, suffix := "Map".toList } rfl (by decide)
      (List.all_eq_true.1 (by decide))
        (by decide) "Entity.Entity<A>(a => \x7b Entity . Entity<B>(); \x7d);".toList
  refine ⟨rewritten, hrewritten, ?_, (hnone (by decide +kernel)).1⟩
  rw [hstarts]
  decide +kernel

end Reference

end EntitySplit
