import EntitySplit.Block.Locate
import EntitySplit.Proofs.Lexical.Token
import EntitySplit.Proofs.Text.Blank

namespace EntitySplit

namespace Lexical

theorem IsIdentifier.isBlank_eq_false {name : Text} (h : IsIdentifier name) :
    ∀ c ∈ name, Text.isBlank c = false := by
  intro c hc
  by_contra hblank
  rw [Bool.not_eq_false] at hblank
  have hat : c ≠ '@' := by
    rintro rfl
    exact absurd hblank (by decide)
  have hpart : isIdentifierPart c = false := Text.eq_false_of_isBlank (by decide +kernel) hblank
  have hstart : isIdentifierStart c = false := by
    rw [isIdentifierPart, Bool.or_eq_false_iff] at hpart
    exact hpart.1
  exact h.not_mem hat hstart hpart hc

theorem IsIdentifier.ne_nil {name : Text} (h : IsIdentifier name) : name ≠ [] := by
  obtain ⟨c, t, rfl, -⟩ := h.exists_cons
  exact List.cons_ne_nil c t

theorem IsIdentifier.isBlank_head {name : Text} (h : IsIdentifier name) (rest : Text) :
    ∀ c ∈ (name ++ rest).head?, Text.isBlank c = false := by
  intro c hc
  rw [List.head?_append_of_ne_nil _ h.ne_nil] at hc
  exact h.isBlank_eq_false c (List.mem_of_head? hc)

/-- An identifier has no white space before it, so white space before a name
    that is one is none. -/
theorem IsIdentifier.append_eq_iff {lead own name : Text} (h : IsIdentifier name)
    (hlead : ∀ c ∈ lead, Text.isBlank c = true) : lead ++ own = name ↔ lead = [] ∧ own = name := by
  constructor
  · rintro rfl
    have hnil : lead = [] := by
      refine List.eq_nil_iff_forall_not_mem.2 fun c hc => ?_
      have hvisible := h.isBlank_eq_false c (List.mem_append_left _ hc)
      rw [hlead c hc] at hvisible
      exact absurd hvisible (by decide)
    simp [hnil]
  · rintro ⟨rfl, rfl⟩
    rfl

end Lexical

namespace Block

open Lexical

/-- A segment of a qualified name: an identifier with its type arguments and
    the white space around it. -/
structure NameSegment where
  /-- The white space before the identifier. -/
  lead : Text
  name : Text
  /-- The type arguments with the white space before them, if there are any. -/
  arguments : Text
  /-- The white space behind the segment. -/
  trail : Text

/-- A list in angle brackets of which the first is closed by the last, behind
    any white space. Commas, comments and further lists may stand in it. -/
def IsArgumentList (arguments : Text) : Prop :=
  ∃ blanks list inside, arguments = blanks ++ list ∧ (∀ c ∈ blanks, Text.isBlank c = true) ∧
    matching? '<' '>' list = some (inside, [])

namespace NameSegment

def text (segment : NameSegment) : Text :=
  segment.lead ++ segment.name ++ segment.arguments ++ segment.trail

structure WellFormed (segment : NameSegment) : Prop where
  lead : ∀ c ∈ segment.lead, Text.isBlank c = true
  name : IsIdentifier segment.name
  arguments : segment.arguments = [] ∨ IsArgumentList segment.arguments
  trail : ∀ c ∈ segment.trail, Text.isBlank c = true

end NameSegment

/-- A type name: segments between dots, with an alias and `::` before them if
    it is so qualified. The last segment is kept apart, as it is the one that
    names the type. -/
structure QualifiedName where
  /-- The alias and the white space behind it. -/
  qualifier : Option (Text × Text)
  /-- The segments before the last one. -/
  inner : List NameSegment
  last : NameSegment

namespace QualifiedName

def qualifierText (name : QualifiedName) : Text :=
  match name.qualifier with
  | none => []
  | some (qualifier, blanks) => qualifier ++ blanks ++ [':', ':']

def text (name : QualifiedName) : Text :=
  name.qualifierText ++ (name.inner.flatMap (·.text ++ ['.']) ++ name.last.text)

/-- White space stands around the separators only: the name neither begins nor
    ends with it. -/
structure WellFormed (name : QualifiedName) : Prop where
  qualifier : ∀ pair ∈ name.qualifier, IsIdentifier pair.1 ∧ ∀ c ∈ pair.2, Text.isBlank c = true
  segments : ∀ segment ∈ name.inner ++ [name.last], segment.WellFormed
  begins : name.qualifier = none → ∀ segment ∈ (name.inner ++ [name.last]).head?, segment.lead = []
  ends : name.last.trail = []

/-- The first segment of some that has type arguments, or else the one behind
    them. -/
def firstWithArguments (inner : List NameSegment) (last : NameSegment) : NameSegment :=
  (inner.find? (!·.arguments.isEmpty)).getD last

/-- The segment that the entity's own name comes from. It is the last one
    unless an earlier segment has type arguments. -/
def deciding (name : QualifiedName) : NameSegment :=
  firstWithArguments name.inner name.last

end QualifiedName

section

variable {segment last : NameSegment} {inner : List NameSegment} {name : QualifiedName}
  {content : Content} {rest before blanks : Text}

theorem angle_not_mem_of_isBlank (h : ∀ c ∈ blanks, Text.isBlank c = true) : '<' ∉ blanks := by
  intro hmem
  exact absurd (h _ hmem) (by decide)

namespace NameSegment.WellFormed

variable (h : segment.WellFormed)

include h

/-- What cuts a type name stands in no identifier and no white space. So it is
    found between segments or before type arguments only. -/
theorem mark_not_mem {c : Char} (hc : c ∈ ['<', '.', ':']) : c ∉ segment.lead ++ segment.name := by
  have hmarks : ∀ c ∈ ['<', '.', ':'], c ≠ '@' ∧ Text.isBlank c = false ∧
    isIdentifierStart c = false ∧
      isIdentifierPart c = false := by decide +kernel
  obtain ⟨hat, hblank, hstart, hpart⟩ := hmarks c hc
  rw [List.mem_append, not_or]
  refine ⟨fun hmem => ?_, h.name.not_mem hat hstart hpart⟩
  rw [h.lead c hmem] at hblank
  exact absurd hblank (by decide)

/-- A segment without type arguments has no angle bracket, so the cut at the
    first bracket goes past it. -/
theorem takeWhile_text_of_nil (hnone : segment.arguments = []) (rest : Text) :
    (segment.text ++ rest).takeWhile (· != '<') = segment.text ++ rest.takeWhile (· != '<') := by
  have hangle : '<' ∉ segment.text := by
    rw [text, hnone, List.append_nil, List.mem_append, not_or]
    exact ⟨h.mark_not_mem (by simp), angle_not_mem_of_isBlank h.trail⟩
  refine List.takeWhile_append_of_pos fun c hc => bne_iff_ne.2 ?_
  rintro rfl
  exact hangle hc

/-- Type arguments begin with an angle bracket, so the cut at the first bracket
    keeps the name before them and the white space between the two. -/
theorem exists_takeWhile_text (hsome : segment.arguments ≠ []) (rest : Text) :
    ∃ blanks, (segment.text ++ rest).takeWhile (· != '<') = segment.lead ++ segment.name ++ blanks ∧
      ∀ c ∈ blanks, Text.isBlank c = true := by
  obtain ⟨blanks, list, inside, hlist, hblanks, hmatching⟩ := h.arguments.resolve_left hsome
  refine ⟨blanks, ?_, hblanks⟩
  have hrun : ∀ c ∈ segment.lead ++ segment.name ++ blanks, (c != '<') = true := by
    intro c hc
    rw [bne_iff_ne]
    rintro rfl
    rcases List.mem_append.1 hc with hc | hc
    · exact h.mark_not_mem (by simp) hc
    · exact angle_not_mem_of_isBlank hblanks hc
  have hsplit : segment.text ++ rest = segment.lead ++ segment.name ++ blanks ++
      '<' :: (inside ++ '>' :: (segment.trail ++ rest)) := by
    rw [text, hlist, eq_cons_append_of_matching? hmatching]
    simp
  rw [hsplit]
  exact Text.takeWhile_run_append hrun (by simp)

end NameSegment.WellFormed

namespace QualifiedName

/-- Up to its first angle bracket a row of segments ends with the first that
    has type arguments, or with the last, and that one stands at the beginning
    or behind a dot. The induction is on the segments before the last one. -/
theorem exists_takeWhile_segments (h : ∀ segment ∈ inner ++ [last], segment.WellFormed) :
    ∃ before blanks, (inner.flatMap (·.text ++ ['.']) ++ last.text).takeWhile (· != '<') =
        before ++ ((firstWithArguments inner last).lead ++ (firstWithArguments inner last).name ++
          blanks) ∧
      (∀ c ∈ blanks, Text.isBlank c = true) ∧ ∀ c ∈ before.getLast?, c = '.' := by
  induction inner with
  | nil =>
    have hlast : last.WellFormed := h last (by simp)
    by_cases hnone : last.arguments = []
    · refine ⟨[], last.trail, ?_, hlast.trail, by simp⟩
      have htake := hlast.takeWhile_text_of_nil hnone []
      simpa [firstWithArguments, NameSegment.text, hnone] using htake
    · obtain ⟨blanks, htake, hblanks⟩ := hlast.exists_takeWhile_text hnone []
      exact ⟨[], blanks, by simpa [firstWithArguments] using htake, hblanks, by simp⟩
  | cons segment inner ih =>
    have hsegment : segment.WellFormed := h segment (by simp)
    have hsplit : (segment :: inner).flatMap (·.text ++ ['.']) ++ last.text =
        segment.text ++ '.' :: (inner.flatMap (·.text ++ ['.']) ++ last.text) := by simp
    rw [hsplit]
    by_cases hnone : segment.arguments = []
    · obtain ⟨before, blanks, htake, hblanks, hdot⟩ :=
        ih fun other hother => h other (List.mem_cons_of_mem _ hother)
      have hfirst : firstWithArguments (segment :: inner) last = firstWithArguments inner last := by
        simp [firstWithArguments, hnone]
      refine ⟨segment.text ++ '.' :: before, blanks, ?_, hblanks, ?_⟩
      · rw [hsegment.takeWhile_text_of_nil hnone, List.takeWhile_cons_of_pos (by decide), htake,
          hfirst]
        simp
      · cases before with
        | nil => simp
        | cons c before =>
          intro d hd
          exact hdot d (by simpa using hd)
    · obtain ⟨blanks, htake, hblanks⟩ := hsegment.exists_takeWhile_text hnone _
      have hfirst : firstWithArguments (segment :: inner) last = segment := by
        simp [firstWithArguments, hnone]
      exact ⟨[], blanks, by rw [htake, hfirst, List.nil_append], hblanks, by simp⟩

theorem firstWithArguments_mem : firstWithArguments inner last ∈ inner ++ [last] := by
  rw [firstWithArguments]
  cases hfind : inner.find? (!·.arguments.isEmpty) with
  | none => simp
  | some segment => simp [List.mem_of_find?_eq_some hfind]

namespace WellFormed

variable (h : name.WellFormed)

include h

theorem deciding : name.deciding.WellFormed :=
  h.segments _ firstWithArguments_mem

/-- A type name begins with an identifier, be it the alias or that of the first
    segment. -/
theorem isBlank_head : ∀ c ∈ name.text.head?, Text.isBlank c = false := by
  have hsegments := h.segments
  have hbegins := h.begins
  rw [text, qualifierText]
  cases hqualifier : name.qualifier with
  | some pair =>
    dsimp only
    rw [List.append_assoc, List.append_assoc]
    exact (h.qualifier pair hqualifier).1.isBlank_head _
  | none =>
    rw [List.nil_append]
    cases hinner : name.inner with
    | nil =>
      rw [hinner] at hbegins hsegments
      rw [List.flatMap_nil, List.nil_append, NameSegment.text, hbegins hqualifier name.last rfl,
        List.nil_append, List.append_assoc]
      exact (hsegments name.last (by simp)).name.isBlank_head _
    | cons segment inner =>
      rw [hinner] at hbegins hsegments
      rw [List.flatMap_cons, NameSegment.text, hbegins hqualifier segment rfl, List.nil_append]
      simp only [List.append_assoc]
      exact (hsegments segment (by simp)).name.isBlank_head _

/-- Up to its first angle bracket a type name ends with the deciding segment,
    which stands at the beginning or behind a separator. -/
theorem exists_takeWhile_text : ∃ before blanks, name.text.takeWhile (· != '<') =
    before ++ (name.deciding.lead ++ name.deciding.name ++ blanks) ∧
      (∀ c ∈ blanks, Text.isBlank c = true) ∧ ∀ c ∈ before.getLast?, c = '.' ∨ c = ':' := by
  obtain ⟨before, blanks, htake, hblanks, hdot⟩ := exists_takeWhile_segments h.segments
  have hangle : ∀ c ∈ name.qualifierText, (c != '<') = true := by
    intro c hc
    rw [bne_iff_ne]
    rintro rfl
    unfold qualifierText at hc
    split at hc
    · exact absurd hc List.not_mem_nil
    · next qualifier blanks heq =>
      obtain ⟨hidentifier, hbehind⟩ := h.qualifier _ heq
      have hqualifier : '<' ∉ qualifier :=
        hidentifier.not_mem (by decide) (by decide +kernel) (by decide +kernel)
      simp [hqualifier, angle_not_mem_of_isBlank hbehind] at hc
  refine ⟨name.qualifierText ++ before, blanks, ?_, hblanks, ?_⟩
  · rw [text, List.takeWhile_append_of_pos hangle, htake, List.append_assoc name.qualifierText]
    rfl
  · intro c hc
    cases before with
    | cons d before =>
      rw [List.getLast?_append_of_ne_nil _ (List.cons_ne_nil d before)] at hc
      exact .inl (hdot c hc)
    | nil =>
      rw [List.append_nil, qualifierText] at hc
      split at hc
      · exact absurd hc (by simp)
      · exact .inr (by simpa [eq_comm] using hc)

end WellFormed

end QualifiedName

/-- The entity's own name is what stands last before the first angle bracket,
    if it begins behind a separator and has none in it. White space behind it
    is dropped, white space before it only at the beginning of the name. -/
theorem simpleName_of_takeWhile {own : Text}
    (htake : content.typeName.takeWhile (· != '<') = before ++ (own ++ blanks)) (hown : own ≠ [])
    (hblanks : ∀ c ∈ blanks, Text.isBlank c = true)
    (hbefore : ∀ c ∈ before.getLast?, c = '.' ∨ c = ':') (hmarks : ∀ c ∈ own, c ≠ '.' ∧ c ≠ ':')
    (hhead : ∀ c ∈ (before ++ own).head?, Text.isBlank c = false)
    (hlast : ∀ c ∈ own.getLast?, Text.isBlank c = false) : content.simpleName = own := by
  have htrim : Text.trim (content.typeName.takeWhile (· != '<')) = before ++ own := by
    rw [htake, ← List.append_assoc, Text.trim_append hblanks]
    refine Text.trim_eq_self hhead ?_
    rwa [List.getLast?_append_of_ne_nil _ hown]
  have hrun : ∀ c ∈ own.reverse, (c != '.' && c != ':') = true := by
    intro c hc
    simpa using hmarks c (List.mem_reverse.1 hc)
  have hstop : ∀ c ∈ before.reverse.head?, (c != '.' && c != ':') = false := by
    intro c hc
    rw [List.head?_reverse] at hc
    rcases hbefore c hc with rfl | rfl <;> rfl
  rw [Content.simpleName, htrim, List.reverse_append, Text.takeWhile_run_append hrun hstop,
    List.reverse_reverse]

/-- The entity's own name is the identifier of the first segment that has type
    arguments, or of the last segment if none has, with the white space that
    stands between it and the separator before it. So it is that of the last
    segment exactly if the two identifiers agree, as where no other segment has
    type arguments, and no such white space is there. The premises hold of
    every type name that is written as the language has it. -/
theorem simpleName_eq_deciding (hformed : name.WellFormed) (htype : content.typeName = name.text) :
    content.simpleName = name.deciding.lead ++ name.deciding.name ∧
      (content.simpleName = name.last.name ↔ name.deciding.lead = [] ∧
        name.deciding.name = name.last.name) := by
  have hdeciding := hformed.deciding
  have hlast := (hformed.segments name.last (by simp)).name
  obtain ⟨before, blanks, htake, hblanks, hbefore⟩ := hformed.exists_takeWhile_text
  have hmarks : ∀ c ∈ name.deciding.lead ++ name.deciding.name, c ≠ '.' ∧ c ≠ ':' := by
    intro c hc
    constructor
    · rintro rfl
      exact hdeciding.mark_not_mem (by simp) hc
    · rintro rfl
      exact hdeciding.mark_not_mem (by simp) hc
  have hown : content.simpleName = name.deciding.lead ++ name.deciding.name := by
    have hne : name.deciding.lead ++ name.deciding.name ≠ [] :=
      List.append_ne_nil_of_right_ne_nil _ hdeciding.name.ne_nil
    refine simpleName_of_takeWhile (htype ▸ htake) hne hblanks hbefore hmarks ?_ ?_
    · have hparts := List.takeWhile_append_dropWhile (p := (· != '<')) (l := name.text)
      have hhead := hformed.isBlank_head
      rw [← hparts, htake, ← List.append_assoc, List.append_assoc] at hhead
      rwa [List.head?_append_of_ne_nil _ (List.append_ne_nil_of_right_ne_nil _ hne)] at hhead
    · rw [List.getLast?_append_of_ne_nil _ hdeciding.name.ne_nil]
      exact fun c hc => hdeciding.name.isBlank_eq_false c (List.mem_of_getLast? hc)
  refine ⟨hown, ?_⟩
  rw [hown]
  exact hlast.append_eq_iff hdeciding.lead

end

theorem isIdentifier_of_identifier? {name : Text} (h : identifier? name = some (name, [])) :
    IsIdentifier name :=
  (identifier?_eq_some_iff.1 h).2.2

/-- `global::Models .Audited<Shop.Order>`, whose own name is `Audited`. It has
    an alias, white space before a dot and type arguments with a dot in them. -/
def auditedName : QualifiedName where
  qualifier := some ("global".toList, [])
  inner := [{ lead := [], name := "Models".toList, arguments := [], trail := [' '] }]
  last := { lead := [], name := "Audited".toList, arguments := "<Shop.Order>".toList, trail := [] }

/-- A located block of that type has the name of the last segment for its own:
    the white space stands before the dot, and only the last segment has type
    arguments. -/
theorem simpleName_eq_deciding_audited :
    auditedName.WellFormed ∧
      ∃ block ∈ locate ['m']
          "m.Entity<global::Models .Audited<Shop.Order>>(e => \x7b \x7d);".toList,
        block.content.typeName = auditedName.text ∧
          block.content.simpleName = auditedName.last.name := by
  have hlist : IsArgumentList "<Shop.Order>".toList :=
    ⟨[], "<Shop.Order>".toList, "Shop.Order".toList, rfl, by simp, by decide +kernel⟩
  have hformed : auditedName.WellFormed := by
    constructor
    · intro pair hpair
      obtain rfl := Option.some.inj hpair
      exact ⟨isIdentifier_of_identifier? (by decide +kernel), by simp⟩
    · intro segment hmem
      rcases List.mem_pair.1 hmem with rfl | rfl
      · exact ⟨by simp, isIdentifier_of_identifier? (by decide +kernel), .inl rfl, by decide⟩
      · have hidentifier : IsIdentifier "Audited".toList :=
          isIdentifier_of_identifier? (by decide +kernel)
        exact ⟨by simp [auditedName], hidentifier, .inr hlist, by simp [auditedName]⟩
    · exact fun hnone => absurd hnone (by simp [auditedName])
    · rfl
  obtain ⟨block, hmem, htype⟩ :
      ∃ block ∈ locate ['m']
          "m.Entity<global::Models .Audited<Shop.Order>>(e => \x7b \x7d);".toList,
        block.content.typeName = auditedName.text := by decide +kernel
  exact ⟨hformed, block, hmem, htype, (simpleName_eq_deciding hformed htype).2.2 ⟨rfl, rfl⟩⟩

/-- `Outer<int>.Inner`, whose last segment is `Inner`, while the first one has
    the type arguments. -/
def nestedName : QualifiedName where
  qualifier := none
  inner := [{ lead := [], name := "Outer".toList, arguments := "<int>".toList, trail := [] }]
  last := { lead := [], name := "Inner".toList, arguments := [], trail := [] }

/-- Type arguments of the outer type take the place of the inner type's name:
    the name is cut at its first `<`, which drops the last segment. -/
theorem nested_type_named_by_outer :
    nestedName.WellFormed ∧
      ∃ block ∈ locate "modelBuilder".toList
          "modelBuilder.Entity<Outer<int>.Inner>(e => \x7b \x7d);".toList,
        block.content.typeName = nestedName.text ∧ nestedName.last.name = "Inner".toList ∧
        block.content.simpleName = "Outer".toList := by
  have hlist : IsArgumentList "<int>".toList :=
    ⟨[], "<int>".toList, "int".toList, rfl, by simp, by decide +kernel⟩
  refine ⟨?_, by decide +kernel⟩
  constructor
  · exact fun pair hpair => absurd hpair (by simp [nestedName])
  · intro segment hmem
    rcases List.mem_pair.1 hmem with rfl | rfl
    · exact ⟨by simp, isIdentifier_of_identifier? (by decide +kernel), .inr hlist, by simp⟩
    · exact ⟨by simp [nestedName], isIdentifier_of_identifier? (by decide +kernel), .inl rfl, by
        simp [nestedName]⟩
  · rintro - segment hmem
    obtain rfl := Option.some.inj hmem
    rfl
  · rfl

end Block

end EntitySplit
