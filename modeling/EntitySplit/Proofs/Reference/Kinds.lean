import EntitySplit.Proofs.Reference.Relabelling
import EntitySplit.Proofs.Reference.Rewriting

namespace EntitySplit

namespace Reference

open Lexical Block

/-- What takes the place of each statement, if anything does: its own
    reference, nothing, or at the first statement all references together. -/
def references (settings : Settings) (lineEnding : Text) (blocks : List Block) :
    List (Option Text) :=
  match settings.referenceMode, blocks with
  | .inPlace, blocks => blocks.map fun block => some (statement settings block)
  | .none, blocks => blocks.map fun _ => none
  | .aggregate, [] => []
  | .aggregate, first :: rest =>
    some ((lineEnding ++ first.indent).intercalate ((first :: rest).map (statement settings))) ::
      rest.map fun _ => none

/-- What an edit puts in the place of a call site and a statement. Where
    nothing comes in the statement's place, the call site goes as well. -/
def putIn (callSite : Text) : Option Text → Text
  | none => []
  | some reference => callSite ++ reference

/-- Whatever the mode, the texts of the edits are the call sites with the
    references behind them. This is where the three modes are told apart; what
    follows speaks of references only. -/
theorem map_text_edits (settings : Settings) (lineEnding : Text) (blocks : List Block) :
    (edits settings lineEnding blocks).map Edit.text =
      List.zipWith putIn (blocks.map Block.callSite) (references settings lineEnding blocks) := by
  cases hmode : settings.referenceMode with
  | inPlace =>
    simp only [edits, references, hmode, List.map_map, List.zipWith_map, List.zipWith_self]
    rfl
  | none =>
    simp only [edits, references, hmode, List.map_map, List.zipWith_map, List.zipWith_self]
    rfl
  | aggregate =>
    cases blocks with
    | nil => simp only [edits, references, hmode, List.map_nil, List.zipWith_nil_left]
    | cons first rest =>
      simp only [edits, references, hmode, List.map_cons, List.map_map, List.zipWith_cons_cons,
        List.zipWith_map, List.zipWith_self]
      rfl

/-- The text that excerpts become is what comes of interleaving their leads and
    the texts put in, so that a derivation of `Rewrites` speaks of the document
    as the edits leave it. -/
theorem Rewrites.interleave_eq {receiver tail result : Text} {excerpts : List Excerpt}
    {references : List (Option Text)} (h : Rewrites receiver tail excerpts references result) :
    Text.interleave (excerpts.map Excerpt.lead ++ [tail])
      (List.zipWith putIn (excerpts.map Excerpt.callSite) references) = result := by
  induction h with
  | done => simp [Text.interleave]
  | replace _ _ ih =>
    rw [List.map_cons, List.map_cons, List.cons_append, List.zipWith_cons_cons, Text.interleave, ih,
      putIn]
    simp only [List.append_assoc]
  | remove _ _ _ ih =>
    rw [List.map_cons, List.map_cons, List.cons_append, List.zipWith_cons_cons, Text.interleave, ih,
      putIn]
    simp only [List.append_nil]

section

variable {settings : Settings} {receiver lineEnding tail sep : Text} {position : Nat}
  {excerpts : List Excerpt}

/-- The statement that replaces a block is code throughout if the class name
    begins no literal and no comment. The receiver is a word, and the rest of
    the statement is fixed text. -/
theorem isReference_statement {block : Block}
    (hword : ∀ c ∈ settings.receiver, Text.isWord c = true)
    (hname : ∀ c ∈ ConfigurationClass.nameFor settings block, BeginsNothing c) :
    IsReference settings.receiver (statement settings block) := by
  have happly : ∀ c ∈ ".ApplyConfiguration(new ".toList, BeginsNothing c := by decide
  have hend : ∀ c ∈ "());".toList, BeginsNothing c := by decide
  constructor
  · exact ⟨_, by rw [statement, List.append_assoc, List.append_assoc]⟩
  · intro c hc
    rw [statement] at hc
    simp only [List.mem_append] at hc
    rcases hc with ((hc | hc) | hc) | hc
    · exact beginsNothing_of_isInert (isInert_of (by decide +kernel) (hword c hc))
    · exact happly c hc
    · exact hname c hc
    · exact hend c hc
  · intro c hc
    rw [statement, List.getLast?_append_of_ne_nil _ (by decide)] at hc
    obtain rfl := Option.some.inj hc
    decide

/-- The statements that replace the blocks of a document are references, each
    by its own class name. -/
theorem isReference_of_mem_map {blocks : List Block}
    (hword : ∀ c ∈ settings.receiver, Text.isWord c = true)
    (hnames : ∀ block ∈ blocks, ∀ c ∈ ConfigurationClass.nameFor settings block, BeginsNothing c) :
    ∀ new ∈ blocks.map (statement settings), IsReference settings.receiver new := by
  intro new hnew
  obtain ⟨block, hmem, rfl⟩ := List.mem_map.1 hnew
  exact isReference_statement hword (hnames block hmem)

/-- References one after another are a reference. What separates them must
    begin nothing; that it ends in no mark of a string is not needed, since the
    receiver follows. -/
theorem isReference_intercalate (hne : receiver ≠ []) (hsep : ∀ c ∈ sep, BeginsNothing c)
    {first : Text} {others : List Text} (hall : ∀ new ∈ first :: others, IsReference receiver new) :
    IsReference receiver (sep.intercalate (first :: others)) := by
  induction others generalizing first with
  | nil =>
    rw [List.intercalate_singleton]
    exact hall first List.mem_cons_self
  | cons second others ih =>
    have hfirst := hall first List.mem_cons_self
    have hothers := ih fun new hnew => hall new (List.mem_cons_of_mem first hnew)
    rw [List.intercalate_cons_cons]
    constructor
    · exact hfirst.begins.trans ((List.prefix_append _ _).trans (List.prefix_append _ _))
    · intro c hc
      rcases List.mem_append.1 hc with hc | hc
      · rcases List.mem_append.1 hc with hc | hc
        · exact hfirst.plain c hc
        · exact hsep c hc
      · exact hothers.plain c hc
    · have hnonempty : sep.intercalate (second :: others) ≠ [] := hothers.begins.ne_nil hne
      rw [List.getLast?_append_of_ne_nil _ hnonempty]
      exact hothers.ends

theorem lineEnding_beginsNothing (t : Text) : ∀ c ∈ Text.lineEnding t, BeginsNothing c := by
  unfold Text.lineEnding
  split <;> decide

/-- The gaps behind the blocks that nothing takes the place of. In the
    aggregate mode the first block is not among them, as all references come
    there. -/
def gapsBehindRemoved (mode : ReferenceMode) (gaps : List Text) : List Text :=
  match mode with
  | .inPlace => []
  | .none => gaps.tail
  | .aggregate => gaps.tail.tail

/-- The call sites are in code or in the comments that they end. Where one
    begins within a literal, to take it out could leave the literal open for
    what follows. -/
def SitesOutsideLiterals (excerpts : List Excerpt) (tail : Text) : Prop :=
  ∀ before excerpt after, excerpts = before ++ excerpt :: after →
    kindAt? (excerpt.text ++ (after.flatMap Excerpt.text ++ tail)) excerpt.lead.size ∈
      [some .code, some .comment]

/-- What is said of all call sites holds of those behind the first, as a call
    site is judged by what stands at and behind it. -/
theorem SitesOutsideLiterals.of_cons {excerpt : Excerpt}
    (h : SitesOutsideLiterals (excerpt :: excerpts) tail) :
    SitesOutsideLiterals excerpts tail :=
  fun before e after heq => h (excerpt :: before) e after (by rw [heq, List.cons_append])

/-- Where every statement gives way to a reference there is a text that it all
    becomes. Nothing is asked of the gaps in this case. -/
theorem exists_rewrites_replaced {news : List Text} (hlength : news.length = excerpts.length)
    (hnews : ∀ new ∈ news, IsReference receiver new) :
    ∃ result, Rewrites receiver tail excerpts (news.map some) result := by
  induction excerpts generalizing news with
  | nil =>
    obtain rfl := List.eq_nil_of_length_eq_zero hlength
    exact ⟨tail, .done⟩
  | cons excerpt excerpts ih =>
    obtain ⟨new, news, rfl⟩ := List.exists_cons_of_length_eq_add_one hlength
    obtain ⟨result, hresult⟩ :=
      ih (Nat.succ.inj hlength) fun other hother => hnews other (List.mem_cons_of_mem new hother)
    exact ⟨_, .replace (hnews new List.mem_cons_self) hresult⟩

/-- Where nothing takes the place of the statements there is a text that it all
    becomes, if a blank line is left behind each of them. It begins with a
    blank line itself if the first lead does, which is what the induction needs
    for the block before. -/
theorem exists_rewrites_removed (hsites : SitesOutsideLiterals excerpts tail)
    (hblank : ∀ gap ∈ (excerpts.map Excerpt.lead ++ [tail]).tail, BlankLine gap) :
    ∃ result, Rewrites receiver tail excerpts (excerpts.map fun _ => none) result ∧
      ((∀ gap ∈ (excerpts.map Excerpt.lead ++ [tail]).head?, BlankLine gap) →
        BlankLine result) := by
  induction excerpts with
  | nil => exact ⟨tail, .done, fun hhead => hhead tail rfl⟩
  | cons excerpt excerpts ih =>
    rw [List.map_cons, List.cons_append, List.tail_cons] at hblank
    obtain ⟨result, hresult, hblankResult⟩ :=
      ih hsites.of_cons fun gap hgap => hblank gap (List.mem_of_mem_tail hgap)
    have hbehind := hblankResult fun gap hgap => hblank gap (List.mem_of_mem_head? hgap)
    exact ⟨_, .remove (hsites [] excerpt excerpts rfl) hbehind hresult, fun hhead =>
      (hhead excerpt.lead rfl).append hbehind⟩

/-- In each mode there is a text that the excerpts become. The premise on the
    names is not needed without references, and those on the call sites and the
    gaps are not needed where every block has its own. -/
theorem exists_rewrites (hne : settings.receiver ≠ [])
    (hword : ∀ c ∈ settings.receiver, Text.isWord c = true)
    (hlineEnding : ∀ c ∈ lineEnding, BeginsNothing c)
    (hcallSites : ∀ excerpt ∈ excerpts, ∀ c ∈ excerpt.callSite, BeginsNothing c)
    (hnames : settings.referenceMode ≠ .none → ∀ block ∈ ofExcerpts position excerpts,
      ∀ c ∈ ConfigurationClass.nameFor settings block, BeginsNothing c)
    (hsites : settings.referenceMode ≠ .inPlace → SitesOutsideLiterals excerpts tail)
    (hblank : ∀ gap ∈ gapsBehindRemoved settings.referenceMode
      (excerpts.map Excerpt.lead ++ [tail]), BlankLine gap) :
    ∃ result, Rewrites settings.receiver tail excerpts
      (references settings lineEnding (ofExcerpts position excerpts)) result := by
  cases hmode : settings.referenceMode with
  | inPlace =>
    have hnews := isReference_of_mem_map hword (hnames (by simp [hmode]))
    have hlength :
      ((ofExcerpts position excerpts).map (statement settings)).length = excerpts.length := by
      rw [List.length_map, length_ofExcerpts]
    obtain ⟨result, hresult⟩ := exists_rewrites_replaced hlength hnews
    refine ⟨result, ?_⟩
    rw [List.map_map] at hresult
    simp only [references, hmode]
    exact hresult
  | none =>
    rw [hmode] at hblank
    obtain ⟨result, hresult, -⟩ := exists_rewrites_removed (hsites (by simp [hmode])) hblank
    refine ⟨result, ?_⟩
    simpa only [references, hmode, List.map_const', length_ofExcerpts] using hresult
  | aggregate =>
    cases excerpts with
    | nil =>
      refine ⟨tail, ?_⟩
      simpa only [references, hmode, ofExcerpts] using Rewrites.done
    | cons excerpt excerpts =>
      have hsep : ∀ c ∈ lineEnding ++ (ofExcerpt position excerpt).indent, BeginsNothing c := by
        intro c hc
        rcases List.mem_append.1 hc with hc | hc
        · exact hlineEnding c hc
        · exact hcallSites excerpt List.mem_cons_self c ((List.dropWhile_suffix _).subset hc)
      have hall := isReference_of_mem_map hword (hnames (by simp [hmode]))
      rw [hmode] at hblank
      -- The first block has all references in its place, the others nothing.
      obtain ⟨result, hresult, -⟩ :=
        exists_rewrites_removed (hsites (by simp [hmode])).of_cons hblank
      rw [ofExcerpts_cons, List.map_cons] at hall
      simp only [references, hmode, ofExcerpts_cons, List.map_const', length_ofExcerpts]
        at hresult ⊢
      exact ⟨_, .replace (isReference_intercalate hne hsep hall) hresult⟩

/-- The document is labelled as the places and what follows the last of them
    say, where these have the gaps between the removals and the call sites and
    statements of the blocks. So the places are no others than those of the
    edits. -/
structure IsCut (document : Text) (blocks : List Block) (places : List Place) (last : Labelled) :
    Prop where
  labels_eq : labels document = places.flatMap Place.old ++ last
  gaps : Span.gaps? document (blocks.map Block.removal) =
    some (places.map (fun place => place.kept.text) ++ [last.text])
  parts : List.Forall₂ (fun place block => place.site.text = block.callSite ∧
    block.outer.slice? document = some place.statement.text) places blocks

/-- Places with the parts of the excerpts have the call sites and statements of
    the blocks. The text before the excerpts counts, for blocks are told by
    their byte positions in the document. -/
theorem parts_of_isOf {document before : Text} {places : List Place}
    (h : List.Forall₂ Place.IsOf places excerpts)
    (hdocument : document = before ++ (excerpts.flatMap Excerpt.text ++ tail)) :
    List.Forall₂ (fun place block => place.site.text = block.callSite ∧
      block.outer.slice? document = some place.statement.text) places
        (ofExcerpts before.size excerpts) := by
  induction h generalizing before with
  | nil => exact .nil
  | @cons place excerpt places excerpts hof _ ih =>
    rw [List.flatMap_cons, List.append_assoc, ← List.append_assoc before] at hdocument
    rw [ofExcerpts_cons, ← Text.size_append]
    refine .cons ⟨hof.site, Span.slice?_eq_some_iff.2 ⟨before ++ excerpt.lead ++ excerpt.callSite,
      excerpts.flatMap Excerpt.text ++ tail, ?_, ?_, ?_⟩⟩ (ih hdocument)
    · rw [hdocument, hof.statement, Excerpt.text]
      simp only [List.append_assoc]
    · simp [Nat.add_assoc]
    · simp [hof.statement, Nat.add_assoc]

/-- The call sites of a document are outside its literals if the blocks say so
    by their positions. That the blocks start in code is needed, for it makes
    the text before a block readable on its own. -/
theorem sitesOutsideLiterals_of_excerpts {document : Text}
    (hword : ∀ c ∈ receiver, Text.isWord c = true)
    (hcode : ∀ block ∈ locate receiver document, kindAt? document block.outer.start = some .code)
    (hsites : ∀ block ∈ locate receiver document,
      kindAt? document block.removal.start ∈ [some .code, some .comment]) :
    SitesOutsideLiterals (dissect receiver document).excerpts (dissect receiver document).tail := by
  intro before excerpt after heq
  obtain ⟨segments, hreads⟩ := reaches_excerpts hcode hword heq
  have hbefore : before.flatMap Excerpt.text = segments.flatMap Segment.text :=
    List.append_cancel_right ((eq_of_excerpts heq).symm.trans hreads.text_eq)
  have hkind := hsites _ (ofExcerpt_mem_locate heq)
  rw [ofExcerpt, hbefore, hreads.kindAt?_add, List.flatMap_cons, List.append_assoc] at hkind
  exact hkind

theorem map_callSite_ofExcerpts (position : Nat) (excerpts : List Excerpt) :
    (ofExcerpts position excerpts).map Block.callSite = excerpts.map Excerpt.callSite := by
  induction excerpts generalizing position with
  | nil => rfl
  | cons excerpt excerpts ih => rw [ofExcerpts_cons, List.map_cons, ih, List.map_cons, ofExcerpt]

/-- The places of the blocks of a document that start in code, and how the
    rewritten document is labelled. The premises are those of the modes
    together; each one that a mode does without is asked for the other modes
    only. -/
theorem exists_places_locate {document : Text} (hne : settings.receiver ≠ [])
    (hword : ∀ c ∈ settings.receiver, Text.isWord c = true)
    (hcode : ∀ block ∈ locate settings.receiver document,
      kindAt? document block.outer.start = some .code)
    (hnames : settings.referenceMode ≠ .none → ∀ block ∈ locate settings.receiver document,
      ∀ c ∈ ConfigurationClass.nameFor settings block, BeginsNothing c)
    (hsites : settings.referenceMode ≠ .inPlace → ∀ block ∈ locate settings.receiver document,
      kindAt? document block.removal.start ∈ [some .code, some .comment])
    (hblank : ∀ gaps,
      Span.gaps? document ((locate settings.receiver document).map Block.removal) = some gaps →
      ∀ gap ∈ gapsBehindRemoved settings.referenceMode gaps, BlankLine gap) :
    ∃ (rewritten : Text) (places : List Place) (last : Labelled),
      Edit.applyAll?
        (edits settings (Text.lineEnding document) (locate settings.receiver document)) document =
        some rewritten ∧
      IsCut document (locate settings.receiver document) places last ∧
      places.map Place.reference =
        references settings (Text.lineEnding document) (locate settings.receiver document) ∧
      SameVisible (places.flatMap Place.new ++ last) (labels rewritten) ∧
      (none ∉ places.map Place.reference →
        labels rewritten = places.flatMap Place.new ++ last) := by
  have hgaps := gaps?_locate settings.receiver document
  have hdocument : (dissect settings.receiver document).excerpts.flatMap Excerpt.text ++
      (dissect settings.receiver document).tail = document :=
        text_dissect settings.receiver document
  have hreadable (before : List Excerpt) (excerpt : Excerpt) (after : List Excerpt)
      (heq : (dissect settings.receiver document).excerpts = before ++ excerpt :: after) :
      excerpt.Readable settings.receiver
        (after.flatMap Excerpt.text ++ (dissect settings.receiver document).tail) :=
    readable_of_excerpts hcode hword heq
  have hcallSites : ∀ excerpt ∈ (dissect settings.receiver document).excerpts,
      ∀ c ∈ excerpt.callSite, BeginsNothing c := by
    intro excerpt hmem
    obtain ⟨before, after, heq⟩ := List.append_of_mem hmem
    exact (hreadable before excerpt after heq).callSite_plain
  obtain ⟨rewritten, hrewrites⟩ :=
    exists_rewrites hne hword (lineEnding_beginsNothing document) hcallSites hnames
      (fun hmode => sitesOutsideLiterals_of_excerpts hword hcode (hsites hmode)) (hblank _ hgaps)
  obtain ⟨places, last, hparts, hlast, hreferences, hold, hvisible, hsame⟩ :=
    hrewrites.exists_places hne hword hreadable
  refine ⟨rewritten, places, last, ?_, ⟨?_, ?_, ?_⟩, hreferences, hvisible, hreferences ▸ hsame⟩
  · rw [applyAll?_edits_eq_interleave, map_text_edits, locate, map_callSite_ofExcerpts,
      hrewrites.interleave_eq]
  · rw [← hold, hdocument]
  · have hleads : places.map (fun place => place.kept.text) =
        (dissect settings.receiver document).excerpts.map Excerpt.lead := by
      rw [← List.forall₂_eq_eq_eq, List.forall₂_map_left_iff, List.forall₂_map_right_iff]
      exact hparts.imp fun _ _ hof => hof.kept
    rw [hgaps, hleads, hlast]
  · exact parts_of_isOf hparts ((List.nil_append _).trans hdocument).symm

end

/-- What is put in a place is the call site and the reference, or nothing, as
    the edit for its block says. -/
theorem Place.text_given (place : Place) :
    place.given.text = putIn place.site.text place.reference := by
  cases hreference : place.reference with
  | none => simp only [Place.given, hreference, putIn, Labelled.text, List.map_nil]
  | some reference =>
    simp only [Place.given, hreference, putIn, Labelled.text_append, Labelled.text_labelled]

/-- A document with a comment before a block and code behind it on its line.
    The line break that ends the comment belongs to the removal of the block. -/
def notedDocument : Text :=
  "// note\n    modelBuilder.Entity<A>(a => \x7b \x7d); Keep();\n".toList

/-- A document in which nothing else is on the line of the block, with a
    comment on the line before. -/
def tidyDocument : Text :=
  "// note\n    modelBuilder.Entity<A>(a => \x7b \x7d);\n    Keep();\n".toList

/-- Where each block gives way to a reference, all other characters of the
    document are of the same kinds as before, and the references are code. A
    receiver is needed, as a block could else begin with the line break that
    ends a literal; of the names it is asked that they begin no literal and no
    comment. -/
theorem kinds_kept_in_place (settings : Settings) (document : Text)
    (hmode : settings.referenceMode = .inPlace) (hne : settings.receiver ≠ [])
    (hword : ∀ c ∈ settings.receiver, Text.isWord c = true)
    (hcode : ∀ block ∈ locate settings.receiver document,
      kindAt? document block.outer.start = some .code)
    (hnames : ∀ block ∈ locate settings.receiver document,
      ∀ c ∈ ConfigurationClass.nameFor settings block, BeginsNothing c) :
    ∃ (rewritten : Text) (places : List Place) (last : Labelled),
      Edit.applyAll?
        (edits settings (Text.lineEnding document) (locate settings.receiver document)) document =
        some rewritten ∧
      IsCut document (locate settings.receiver document) places last ∧
      places.map Place.reference =
        (locate settings.receiver document).map (fun block => some (statement settings block)) ∧
      labels rewritten = places.flatMap Place.new ++ last := by
  obtain ⟨rewritten, places, last, hrewritten, hcut, hreferences, -, hlabels⟩ :=
    exists_places_locate hne hword hcode (fun _ => hnames) (fun hnot => absurd hmode hnot)
      (by simp [gapsBehindRemoved, hmode])
  simp only [references, hmode] at hreferences
  refine ⟨rewritten, places, last, hrewritten, hcut, hreferences, hlabels ?_⟩
  rw [hreferences]
  simp

/-- A comment stands before the block, and code behind it on its line. Both
    keep their kinds, since the line break between the comment and the
    reference is put back. -/
theorem kinds_kept_in_place_noted :
    ∃ (rewritten : Text) (places : List Place) (last : Labelled),
      Edit.applyAll?
        (edits {} (Text.lineEnding notedDocument) (locate "modelBuilder".toList notedDocument))
        notedDocument = some rewritten ∧
      IsCut notedDocument (locate "modelBuilder".toList notedDocument) places last ∧
      places.map Place.reference =
        (locate "modelBuilder".toList notedDocument).map (fun block => some (statement {} block)) ∧
      labels rewritten = places.flatMap Place.new ++ last :=
  kinds_kept_in_place {} notedDocument rfl (by decide) (by decide +kernel) (by decide +kernel)
    (by decide +kernel)

/-- With no receiver a block starts at the white space before its dot. There
    the line break goes that ended the literal of the line before, and the
    reference is in the literal. The other premises of `kinds_kept_in_place`
    hold. -/
theorem reference_quoted_without_receiver :
    (∀ block ∈ locate [] "\"abc;\n.Entity<A>(a => \x7b \x7d);".toList,
      kindAt? "\"abc;\n.Entity<A>(a => \x7b \x7d);".toList block.outer.start = some .code ∧
        ∀ c ∈ ConfigurationClass.nameFor { receiver := [] } block, BeginsNothing c) ∧
    Edit.applyAll? (edits { receiver := [] } ['\n']
      (locate [] "\"abc;\n.Entity<A>(a => \x7b \x7d);".toList))
      "\"abc;\n.Entity<A>(a => \x7b \x7d);".toList =
        some "\"abc;.ApplyConfiguration(new AConfiguration());".toList ∧
    labels "\"abc;.ApplyConfiguration(new AConfiguration());".toList =
      labelled .string "\"abc;.ApplyConfiguration(new AConfiguration());".toList := by
  decide +kernel

/-- Whatever comes in the place of the blocks, the characters that stay are of
    the same kinds as before, white space apart, if what is left behind each
    removed block begins with a blank line. The premises on call sites and gaps
    concern removed blocks only. -/
theorem visible_kinds_kept (settings : Settings) (document : Text) (hne : settings.receiver ≠ [])
    (hword : ∀ c ∈ settings.receiver, Text.isWord c = true)
    (hcode : ∀ block ∈ locate settings.receiver document,
      kindAt? document block.outer.start = some .code)
    (hnames : settings.referenceMode ≠ .none → ∀ block ∈ locate settings.receiver document,
      ∀ c ∈ ConfigurationClass.nameFor settings block, BeginsNothing c)
    (hsites : settings.referenceMode ≠ .inPlace → ∀ block ∈ locate settings.receiver document,
      kindAt? document block.removal.start ∈ [some .code, some .comment])
    (hblank : ∀ gaps,
      Span.gaps? document ((locate settings.receiver document).map Block.removal) = some gaps →
      ∀ gap ∈ gapsBehindRemoved settings.referenceMode gaps, BlankLine gap) :
    ∃ (rewritten : Text) (places : List Place) (last : Labelled),
      Edit.applyAll?
        (edits settings (Text.lineEnding document) (locate settings.receiver document)) document =
        some rewritten ∧
      IsCut document (locate settings.receiver document) places last ∧
      places.map (fun place => place.given.text) =
        (edits settings (Text.lineEnding document) (locate settings.receiver document)).map
          Edit.text ∧
      SameVisible (places.flatMap Place.new ++ last) (labels rewritten) := by
  obtain ⟨rewritten, places, last, hrewritten, hcut, hreferences, hvisible, -⟩ :=
    exists_places_locate hne hword hcode hnames hsites hblank
  have hcallSites : (locate settings.receiver document).map Block.callSite =
      places.map (fun place => place.site.text) := by
    rw [eq_comm, ← List.forall₂_eq_eq_eq, List.forall₂_map_left_iff, List.forall₂_map_right_iff]
    exact hcut.parts.imp fun _ _ hpart => hpart.1
  refine ⟨rewritten, places, last, hrewritten, hcut, ?_, hvisible⟩
  rw [map_text_edits, ← hreferences, hcallSites, List.zipWith_map, List.zipWith_self]
  exact List.map_congr_left fun place _ => place.text_given

/-- The line that the block was on is blank behind it, so nothing but a line
    break is left behind the comment. -/
theorem visible_kinds_kept_alone :
    ∃ (rewritten : Text) (places : List Place) (last : Labelled),
      Edit.applyAll? (edits { referenceMode := .none } (Text.lineEnding tidyDocument)
        (locate "modelBuilder".toList tidyDocument)) tidyDocument = some rewritten ∧
      IsCut tidyDocument (locate "modelBuilder".toList tidyDocument) places last ∧
      places.map (fun place => place.given.text) =
        (edits { referenceMode := .none } (Text.lineEnding tidyDocument)
          (locate "modelBuilder".toList tidyDocument)).map Edit.text ∧
      SameVisible (places.flatMap Place.new ++ last) (labels rewritten) := by
  apply visible_kinds_kept { referenceMode := .none } tidyDocument
  · decide
  · decide +kernel
  · decide +kernel
  · decide +kernel
  · decide +kernel
  · have hgaps :
      Span.gaps? tidyDocument ((locate "modelBuilder".toList tidyDocument).map Block.removal) =
          some ["// note".toList, "\n    Keep();\n".toList] := by decide +kernel
    intro gaps h
    obtain rfl := Option.some.inj (hgaps.symm.trans h)
    decide +kernel

/-- Without the block, what was behind it on its line is in the comment of the
    line before. So the premise on the gaps in `visible_kinds_kept` cannot be
    left out. -/
theorem code_commented_out :
    (∀ block ∈ locate "modelBuilder".toList notedDocument,
      kindAt? notedDocument block.outer.start = some .code) ∧
    Edit.applyAll? (edits { referenceMode := .none } (Text.lineEnding notedDocument)
      (locate "modelBuilder".toList notedDocument)) notedDocument =
        some "// note Keep();\n".toList ∧
    labelled .code " Keep();\n".toList <:+ labels notedDocument ∧
    labels "// note Keep();\n".toList = labelled .comment "// note Keep();\n".toList := by
  decide +kernel

end Reference

end EntitySplit
