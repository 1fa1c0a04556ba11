import EntitySplit.Proofs.Block.Passage
import EntitySplit.Proofs.Header.Cut
import EntitySplit.Proofs.Header.Returns

namespace EntitySplit

namespace Header

open Lexical
open Text (isBlank)

/-- The character behind `before` is one of code, and belongs to no comment and
    no literal. -/
def InCode (document before : Text) : Prop :=
  kindAt? document before.size = some .code

/-- The comment or literal has the keyword, behind a character at which it may
    stand. A keyword at its very beginning is not meant, since comments and
    literals begin with marks. -/
def Quotes (boundary : Char → Bool) (keyword : Text) (segment : Segment) : Prop :=
  segment.kind ≠ .code ∧ ∃ front c back, segment.text = front ++ c :: (keyword ++ back) ∧
    boundary c = true

/-- Behind `before` the document is in a comment or a literal that has the
    keyword there, and the character before the keyword is one at which it may
    stand. -/
def QuotedAt (boundary : Char → Bool) (keyword document before : Text) : Prop :=
  ∃ segment front c back rest,
    PassesAt document before segment (front ++ [c]) (keyword ++ back) rest ∧
    segment.kind ≠ .code ∧ boundary c = true

section

variable {boundary : Char → Bool} {keyword document before rest front back : Text}
  {segment : Segment}

/-- A place where the keyword is quoted lies in a segment that quotes it. A
    document without such segments therefore has no such place. -/
theorem QuotedAt.exists_quotes (h : QuotedAt boundary keyword document before) :
    ∃ segment ∈ segments document, Quotes boundary keyword segment := by
  obtain ⟨segment, front, c, back, rest, hpasses, hkind, hc⟩ := h
  refine ⟨segment, hpasses.mem_segments, hkind, front, c, back, ?_, hc⟩
  rw [hpasses.text_eq, List.append_assoc, List.singleton_append]

/-- No comment and no literal begins with a letter, so what stands before a
    letter within one is not empty. -/
theorem front_ne_nil_of_isWord {c : Char}
    (hpasses : PassesAt document before segment front (c :: back) rest)
    (hkind : segment.kind ≠ .code) (hc : Text.isWord c = true) : front ≠ [] := by
  rintro rfl
  have hnext := hpasses.next
  rw [hpasses.text_eq, List.nil_append, List.cons_append,
    next?_inert (isInert_of (by decide +kernel) hc), Option.some.injEq, Prod.mk.injEq] at hnext
  exact hkind (hnext.1 ▸ rfl)

/-- A keyword of letters begins in code, or a comment or a literal quotes it.
    The boundary is asked for in front of the keyword, as the patterns for the
    header do; at the beginning of the document there is none. -/
theorem inCode_or_quotedAt (hne : keyword ≠ []) (hword : ∀ c ∈ keyword, Text.isWord c = true)
    (hdocument : document = before ++ (keyword ++ rest))
    (hboundary : ∀ c ∈ before.getLast?, boundary c = true) :
    InCode document before ∨ QuotedAt boundary keyword document before := by
  obtain ⟨first, letters, rfl⟩ := List.exists_cons_of_ne_nil hne
  obtain ⟨segment, front, back, behind, hpasses, hback⟩ := exists_passesAt hdocument
  by_cases hkind : segment.kind = .code
  · left
    rw [InCode, hpasses.kindAt?_eq, hkind]
  · right
    obtain ⟨more, rfl⟩ := hpasses.word_prefix hkind hword hback
    -- The character before the keyword is in the same comment or literal.
    have hfront := front_ne_nil_of_isWord hpasses hkind (hword first List.mem_cons_self)
    obtain ⟨front, c, rfl⟩ := (List.eq_nil_or_concat front).resolve_left hfront
    rw [List.concat_eq_append] at hpasses
    refine ⟨segment, front, c, more, behind, hpasses, hkind, hboundary c ?_⟩
    obtain ⟨_, -, hbefore⟩ := hpasses.reads
    rw [hbefore, ← List.append_assoc, List.getLast?_concat]
    rfl

end

/-- The characters behind which a declaration may stand: white space and the
    semicolon of the declaration before it. -/
def endsDeclaration (c : Char) : Bool :=
  isBlank c || c = ';'

/-- Behind `before` stands a namespace declaration, at the beginning of the
    document or behind a character that may end another. Whether this is in
    code is left open. -/
structure DeclaresAt (document before name : Text) : Prop where
  exists_rest : ∃ rest, document = before ++ rest ∧ declaredName? rest = some name
  boundary : ∀ c ∈ before.getLast?, endsDeclaration c = true

/-- The name of the first declaration among those that `counts` picks by what
    stands before them, empty if there is none. -/
def IsFirstDeclared (document : Text) (counts : Text → Prop) (name : Text) : Prop :=
  (∃ before, DeclaresAt document before name ∧ counts before ∧
    ∀ earlier other, DeclaresAt document earlier other → counts earlier → before <+: earlier) ∨
  (name = [] ∧ ∀ before other, DeclaresAt document before other → ¬counts before)

section

variable {document before t name : Text} {counts counts' : Text → Prop}

/-- The first declaration does not depend on which of two conditions picks the
    declarations, if each holds of all of them. -/
theorem IsFirstDeclared.of_counts
    (hcounts : ∀ before name, DeclaresAt document before name → counts before)
    (hcounts' : ∀ before name, DeclaresAt document before name → counts' before)
    (h : IsFirstDeclared document counts name) : IsFirstDeclared document counts' name := by
  rcases h with ⟨before, hdeclares, -, hfirst⟩ | ⟨hname, hnone⟩
  · exact Or.inl ⟨before, hdeclares, hcounts' before name hdeclares, fun earlier other h _ =>
      hfirst earlier other h (hcounts earlier other h)⟩
  · exact Or.inr ⟨hname, fun before other h _ => hnone before other h (hcounts before other h)⟩

/-- What has been gone over holds no declaration, and the character before the
    rest decides whether one may stand there. These two are what `hpassed` and
    `hboundary` carry through the induction on the rest. -/
theorem isFirstDeclared_namespaceFrom {boundary : Bool} (hdocument : document = before ++ t)
    (hboundary : boundary = true ↔ ∀ c ∈ before.getLast?, endsDeclaration c = true)
    (hpassed : ∀ earlier other, DeclaresAt document earlier other → before <+: earlier) :
    IsFirstDeclared document (fun _ => True) (namespaceFrom boundary t) := by
  induction t generalizing before boundary with
  | nil =>
    right
    refine ⟨rfl, ?_⟩
    rintro earlier other hdeclares -
    obtain ⟨middle, rfl⟩ := hpassed earlier other hdeclares
    obtain ⟨rest, hrest, hname⟩ := hdeclares.exists_rest
    have hnil : rest = [] := by
      have hlength := congrArg List.length (hdocument.symm.trans hrest)
      rw [← List.length_eq_zero_iff]
      simp only [List.length_append, List.length_nil] at hlength
      omega
    rw [hnil] at hname
    exact absurd hname (by simp [declaredName?, Text.after?])
  | cons c t ih =>
    rw [namespaceFrom]
    split
    · next name hname =>
      left
      split at hname
      · next hb =>
        exact ⟨before, ⟨⟨c :: t, hdocument, hname⟩, hboundary.1 hb⟩, trivial,
          fun earlier other h _ =>
          hpassed earlier other h⟩
      · exact absurd hname (by simp)
    · next hnone =>
      have hdocument' : document = (before ++ [c]) ++ t := by
        rw [hdocument, List.append_assoc, List.singleton_append]
      apply ih hdocument'
      · rw [List.getLast?_concat]
        simp [endsDeclaration]
      · intro earlier other hdeclares
        obtain ⟨middle, rfl⟩ := hpassed earlier other hdeclares
        obtain ⟨rest, hrest, hname⟩ := hdeclares.exists_rest
        rw [hdocument, List.append_assoc] at hrest
        have hmiddle := List.append_cancel_left hrest
        cases middle with
        | nil =>
          rw [List.nil_append] at hmiddle
          rw [List.append_nil] at hdeclares
          rw [if_pos (hboundary.2 hdeclares.boundary), hmiddle, hname] at hnone
          exact absurd hnone (by simp)
        | cons d middle =>
          obtain ⟨rfl, -⟩ := List.cons.inj hmiddle
          exact ⟨middle, by rw [List.append_assoc, List.singleton_append]⟩

/-- The namespace of a document is that of its first declaration, wherever this
    stands. -/
theorem isFirstDeclared_namespaceName (document : Text) :
    IsFirstDeclared document (fun _ => True) (namespaceName document) :=
  isFirstDeclared_namespaceFrom (List.nil_append document).symm (by simp) fun earlier _ _ =>
    List.nil_prefix

/-- A declaration begins in code, or in a comment or a literal that quotes the
    keyword. -/
theorem DeclaresAt.inCode_or_quotedAt (h : DeclaresAt document before name) :
    InCode document before ∨ QuotedAt endsDeclaration "namespace".toList document before := by
  obtain ⟨rest, hdocument, hname⟩ := h.exists_rest
  rw [declaredName?_eq] at hname
  obtain ⟨after, hafter, -⟩ := Option.bind_eq_some_iff.1 hname
  rw [Text.eq_append_of_after? hafter] at hdocument
  exact Header.inCode_or_quotedAt (by decide) (by decide +kernel) hdocument h.boundary

end

section

variable {document before directive : Text}

/-- So does a directive, with the beginning of a line for the boundary. -/
theorem inCode_or_quotedAt_of_mem_directives (hmem : (before, directive) ∈ directives document) :
    InCode document before ∨ QuotedAt (· = '\n') "using".toList document before := by
  obtain ⟨after, hdocument, hdirective, hfeed⟩ := exists_of_mem_directives hmem
  rw [directive?_eq] at hdirective
  obtain ⟨rest, hrest, -⟩ := Option.bind_eq_some_iff.1 hdirective
  rw [Text.eq_append_of_after? hrest] at hdocument
  exact inCode_or_quotedAt (by decide) (by decide +kernel) hdocument fun c hc =>
    decide_eq_true (hfeed c hc)

end

/-- The namespace is that of the first declaration, and the directives are
    those at the beginnings of lines, wherever these stand: each in code, or in
    a comment or a literal that has the keyword there. Where no comment and no
    literal has one of the keywords at such a place, the header is read from
    code alone. Nothing is asked of the document. -/
theorem header_read_from_code (document : Text) :
    IsFirstDeclared document (fun _ => True) (namespaceName document) ∧
    (∀ before name, DeclaresAt document before name →
      InCode document before ∨ QuotedAt endsDeclaration "namespace".toList document before) ∧
    ((∀ segment ∈ segments document, ¬Quotes endsDeclaration "namespace".toList segment) →
      IsFirstDeclared document (InCode document) (namespaceName document)) ∧
    usings document = (directives document).map (·.2) ∧
    (∀ place ∈ directives document,
      InCode document place.1 ∨ QuotedAt (· = '\n') "using".toList document place.1) ∧
    ((∀ segment ∈ segments document, ¬Quotes (· = '\n') "using".toList segment) →
      ∀ place ∈ directives document, InCode document place.1) := by
  have hfirst := isFirstDeclared_namespaceName document
  have hdirectives : ∀ place ∈ directives document,
      InCode document place.1 ∨ QuotedAt (· = '\n') "using".toList document place.1 :=
    fun _ hmem => inCode_or_quotedAt_of_mem_directives hmem
  refine ⟨hfirst, fun _ _ h => h.inCode_or_quotedAt, ?_, (map_directives document).symm,
    hdirectives, ?_⟩
  · intro hnone
    apply hfirst.of_counts (fun _ _ _ => trivial)
    intro before name hdeclares
    refine hdeclares.inCode_or_quotedAt.resolve_right fun hquoted => ?_
    obtain ⟨segment, hmem, hquotes⟩ := hquoted.exists_quotes
    exact hnone segment hmem hquotes
  · intro hnone place hplace
    refine (hdirectives place hplace).resolve_right fun hquoted => ?_
    obtain ⟨segment, hmem, hquotes⟩ := hquoted.exists_quotes
    exact hnone segment hmem hquotes

/-- The word behind `namespace` in a comment is taken for the name of the
    namespace, although no declaration stands in code. -/
theorem namespace_named_by_comment : ∃ document : Text, namespaceName document = "contains".toList ∧
    ¬IsFirstDeclared document (InCode document) (namespaceName document) := by
  refine ⟨"// This namespace contains the context.\npublic class C \x7b \x7d\n".toList, by
    decide +kernel, ?_⟩
  have hname :
    namespaceName "// This namespace contains the context.\npublic class C \x7b \x7d\n".toList =
        "contains".toList := by decide +kernel
  generalize hdocument :
    "// This namespace contains the context.\npublic class C \x7b \x7d\n".toList = document at *
  have hplaces :
    ∀ count < document.length + 1, (declaredName? (document.drop count)).isSome = true →
        kindAt? document (Text.size (document.take count)) ≠ some .code := by
      rw [← hdocument]
      decide +kernel
  rw [hname]
  rintro (⟨before, hdeclares, hcode, -⟩ | ⟨hnil, -⟩)
  · obtain ⟨rest, heq, hread⟩ := hdeclares.exists_rest
    refine hplaces before.length ?_ ?_ ?_
    · rw [heq, List.length_append]
      omega
    · rw [heq, List.drop_left, hread]
      rfl
    · rw [InCode] at hcode
      rwa [heq, List.take_left, ← heq]
  · exact absurd hnil (by decide)

end Header

end EntitySplit
