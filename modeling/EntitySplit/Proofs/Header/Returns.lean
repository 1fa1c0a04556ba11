import EntitySplit.Header
import EntitySplit.Proofs.Text.Returns

namespace EntitySplit

namespace Header

open Text (withReturns isBlank)

/-- Whether white space follows is not changed by carriage returns, being white
    space themselves. -/
theorem head?_isBlank_withReturns (t : Text) :
    (withReturns t).head?.any isBlank = t.head?.any isBlank := by
  cases t with
  | nil => rfl
  | cons c t =>
    by_cases hc : c = '\n'
    · subst hc
      rfl
    · rw [Text.withReturns_cons hc]
      rfl

section

variable {kept t after directive : Text} {lineBegins : Bool} {c : Char}

/-- The white space behind the keyword belongs to what is read up to the
    semicolon. In this form the cases of the definition are one. -/
theorem directive?_eq (t : Text) : directive? t = (Text.after? "using".toList t).bind fun rest =>
    if rest.head?.any isBlank then
      (rest.dropWhile (· != ';')).tail?.map fun after =>
        ("using".toList ++ rest.takeWhile (· != ';') ++ [';'], after)
    else none := by
  unfold directive?
  cases Text.after? "using".toList t with
  | none => rfl
  | some rest =>
    cases rest with
    | nil => rfl
    | cons c rest =>
      have hhead : (c :: rest).head?.any isBlank = isBlank c := rfl
      rw [Option.bind_some, hhead]
      dsimp only
      split
      · next hblank =>
        have hc : (c != ';') = true := by
          rw [bne_iff_ne]
          rintro rfl
          exact absurd hblank (by decide)
        have hdrop : (c :: rest).dropWhile (· != ';') = rest.dropWhile (· != ';') :=
          List.dropWhile_cons_of_pos hc
        have htake : (c :: rest).takeWhile (· != ';') = c :: rest.takeWhile (· != ';') :=
          List.takeWhile_cons_of_pos hc
        rw [hdrop, htake]
        cases rest.dropWhile (· != ';') with
        | nil => rfl
        | cons d after => rfl
      · rfl

/-- A directive with carriage returns is read as the directive, with carriage
    returns in it where it has line feeds. -/
theorem directive?_withReturns (t : Text) : directive? (withReturns t) =
    (directive? t).map fun (directive, after) => (withReturns directive, withReturns after) := by
  have husing : ∀ c ∈ "using".toList, c ≠ '\r' ∧ c ≠ '\n' := by decide +kernel
  have hkeyword : withReturns "using".toList = "using".toList :=
    Text.withReturns_of_not_mem fun hmem => (husing _ hmem).2 rfl
  have hsemicolon : ('\r' != ';') = ('\n' != ';') := by decide
  rw [directive?_eq, directive?_eq, Text.after?_withReturns husing]
  cases Text.after? "using".toList t with
  | none => rfl
  | some rest =>
    rw [Option.map_some, Option.bind_some, Option.bind_some, head?_isBlank_withReturns]
    split
    · have hstop := List.head?_dropWhile_not (· != ';') rest
      rw [Text.dropWhile_withReturns hsemicolon, Text.takeWhile_withReturns hsemicolon]
      cases hdrop : rest.dropWhile (· != ';') with
      | nil => rfl
      | cons c after =>
        rw [hdrop] at hstop
        have hc : c ≠ '\n' := by
          rintro rfl
          simp at hstop
        rw [Text.withReturns_cons hc, List.tail?_cons, List.tail?_cons, Option.map_some,
          Option.map_some, Option.map_some]
        dsimp only
        rw [Text.withReturns_append, Text.withReturns_append, hkeyword]
        rfl
    · rfl

theorem cutFrom_of_none (h : (if lineBegins then directive? (c :: t) else none) = none) :
    cutFrom lineBegins kept (c :: t) = cutFrom (c = '\n') (c :: kept) t := by
  rw [cutFrom]
  split
  · next hsome =>
    rw [h] at hsome
    exact absurd hsome (by simp)
  · rfl

theorem cutFrom_of_some
    (h : (if lineBegins then directive? (c :: t) else none) = some (directive, after)) :
    cutFrom lineBegins kept (c :: t) =
      ((kept.reverse, directive) :: (cutFrom false [] after).1, (cutFrom false [] after).2) := by
  rw [cutFrom]
  split
  · next hsome =>
    rw [h, Option.some.injEq, Prod.mk.injEq] at hsome
    obtain ⟨rfl, rfl⟩ := hsome
    rfl
  · next hnone =>
    rw [h] at hnone
    exact absurd hnone (by simp)

theorem directive?_cons_eq_none (hc : 'u' ≠ c) (t : Text) : directive? (c :: t) = none := by
  rw [directive?_eq]
  have hnone : Text.after? "using".toList (c :: t) = none := Text.after?_cons_of_ne hc _ t
  rw [hnone]
  rfl

/-- The directives cut out of a text with carriage returns are those of the
    text, rewritten. What was kept before is left out of account, as it belongs
    to no directive. -/
theorem cutFrom_withReturns (kept' : Text) :
    (cutFrom lineBegins kept' (withReturns t)).1.map (·.2) =
      ((cutFrom lineBegins kept t).1.map (·.2)).map withReturns := by
  fun_induction cutFrom lineBegins kept t generalizing kept' with
  | case1 lineBegins kept => rw [Text.withReturns_nil, cutFrom]; rfl
  | case2 lineBegins kept c t directive after hfound rest ih =>
    have hc : c ≠ '\n' := by
      rintro rfl
      simp [directive?_cons_eq_none] at hfound
    have hfound' : (if lineBegins then directive? (c :: withReturns t) else none) =
        some (withReturns directive, withReturns after) := by
      rw [← Text.withReturns_cons hc, directive?_withReturns]
      cases lineBegins with
      | false => exact absurd hfound (by simp)
      | true =>
        have hdirective : directive? (c :: t) = some (directive, after) := hfound
        rw [if_pos rfl, hdirective]
        rfl
    rw [Text.withReturns_cons hc, cutFrom_of_some hfound', List.map_cons, List.map_cons,
      List.map_cons, ih]
  | case3 lineBegins kept c t hfound ih =>
    by_cases hc : c = '\n'
    · subst hc
      have hnone {d : Char} (hd : 'u' ≠ d) (begins : Bool) (u : Text) :
          (if begins then directive? (d :: u) else none) = none := by
        rw [directive?_cons_eq_none hd, ite_self]
      rw [Text.withReturns_feed, cutFrom_of_none (hnone (by decide) _ _),
        cutFrom_of_none (hnone (by decide) _ _), ih]
    · have hfound' : (if lineBegins then directive? (c :: withReturns t) else none) = none := by
        rw [← Text.withReturns_cons hc, directive?_withReturns]
        cases lineBegins with
        | false => rfl
        | true =>
          have hnone : directive? (c :: t) = none := hfound
          rw [if_pos rfl, hnone]
          rfl
      rw [Text.withReturns_cons hc, cutFrom_of_none hfound', ih]

/-- The directives of a document with carriage returns are those of the
    document, rewritten. -/
theorem usings_withReturns (t : Text) : usings (withReturns t) = (usings t).map withReturns :=
  cutFrom_withReturns []

/-- The name that a text begins with: a letter, an underscore or an at sign,
    and word characters and dots behind it. -/
def name? : Text → Option Text
  | [] => none
  | first :: name =>
    if first.isAlpha || first = '_' || first = '@' then
      some (first :: name.takeWhile fun c => Text.isWord c || c = '.')
    else
      none

/-- A declaration is the keyword, white space and a name, with the cases of the
    definition in one. -/
theorem declaredName?_eq (t : Text) :
    declaredName? t = (Text.after? "namespace".toList t).bind fun rest =>
    if rest.head?.any isBlank then name? (rest.dropWhile isBlank) else none := by
  unfold declaredName?
  cases Text.after? "namespace".toList t with
  | none => rfl
  | some rest =>
    cases rest with
    | nil => rfl
    | cons c rest =>
      have hhead : (c :: rest).head?.any isBlank = isBlank c := rfl
      rw [Option.bind_some, hhead]
      dsimp only
      split
      · next hblank =>
        rw [List.dropWhile_cons_of_pos hblank]
        cases rest.dropWhile isBlank with
        | nil => rfl
        | cons first name => rfl
      · rfl

/-- A name holds no line feed, so it is read alike with carriage returns behind
    it. -/
theorem name?_withReturns (t : Text) : name? (withReturns t) = name? t := by
  cases t with
  | nil => rfl
  | cons first name =>
    by_cases hfirst : first = '\n'
    · subst hfirst
      rfl
    · rw [Text.withReturns_cons hfirst, name?, name?, Text.takeWhile_withReturns (by decide),
        Text.withReturns_takeWhile (by decide)]

/-- A declaration is read alike with carriage returns, those in its white space
    included. -/
theorem declaredName?_withReturns (t : Text) : declaredName? (withReturns t) = declaredName? t := by
  have hnamespace : ∀ c ∈ "namespace".toList, c ≠ '\r' ∧ c ≠ '\n' := by decide +kernel
  rw [declaredName?_eq, declaredName?_eq, Text.after?_withReturns hnamespace]
  cases Text.after? "namespace".toList t with
  | none => rfl
  | some rest =>
    rw [Option.map_some, Option.bind_some, Option.bind_some, head?_isBlank_withReturns,
      Text.dropWhile_withReturns Text.isBlank_return, name?_withReturns]

theorem declaredName?_cons_eq_none (hc : 'n' ≠ c) (t : Text) : declaredName? (c :: t) = none := by
  rw [declaredName?_eq]
  have hnone : Text.after? "namespace".toList (c :: t) = none := Text.after?_cons_of_ne hc _ t
  rw [hnone]
  rfl

theorem namespaceFrom_withReturns (boundary : Bool) (t : Text) :
    namespaceFrom boundary (withReturns t) = namespaceFrom boundary t := by
  induction t generalizing boundary with
  | nil => rfl
  | cons c t ih =>
    by_cases hc : c = '\n'
    · subst hc
      have hnone {d : Char} (hd : 'n' ≠ d) (boundary : Bool) (u : Text) :
          namespaceFrom boundary (d :: u) = namespaceFrom (isBlank d || d = ';') u := by
        rw [namespaceFrom, declaredName?_cons_eq_none hd, ite_self]
      rw [Text.withReturns_feed, hnone (by decide), hnone (by decide), hnone (by decide), ih]
    · have hname := declaredName?_withReturns (c :: t)
      rw [Text.withReturns_cons hc] at hname
      rw [Text.withReturns_cons hc, namespaceFrom, namespaceFrom, hname, ih]

/-- The namespace of a document with carriage returns is that of the document. -/
theorem namespaceName_withReturns (t : Text) : namespaceName (withReturns t) = namespaceName t :=
  namespaceFrom_withReturns true t

/-- What belongs neither to a word nor between two words is in no name. For a
    given character the two premises are decided by looking at it. -/
theorem not_mem_of_name? {d : Char} {name : Text}
    (hfirst : (d.isAlpha || d = '_' || d = '@') = false)
    (hpart : (Text.isWord d || d = '.') = false) (h : name? t = some name) : d ∉ name := by
  cases t with
  | nil => exact absurd h (by simp [name?])
  | cons first parts =>
    rw [name?] at h
    split at h
    · next hletter =>
      obtain rfl := Option.some.inj h
      rw [List.mem_cons, not_or]
      constructor
      · rintro rfl
        rw [hletter] at hfirst
        exact absurd hfirst (by decide)
      · intro hmem
        have hword := List.all_eq_true.1 List.all_takeWhile _ hmem
        rw [hpart] at hword
        exact absurd hword (by decide)
    · exact absurd h (by simp)

theorem not_mem_namespaceName {d : Char} (hfirst : (d.isAlpha || d = '_' || d = '@') = false)
    (hpart : (Text.isWord d || d = '.') = false) (t : Text) : d ∉ namespaceName t := by
  have hdeclared {u name : Text} (h : declaredName? u = some name) : d ∉ name := by
    rw [declaredName?_eq] at h
    obtain ⟨rest, -, h⟩ := Option.bind_eq_some_iff.1 h
    split at h
    · exact not_mem_of_name? hfirst hpart h
    · exact absurd h (by simp)
  have hfrom (boundary : Bool) : d ∉ namespaceFrom boundary t := by
    induction t generalizing boundary with
    | nil => simp [namespaceFrom]
    | cons c t ih =>
      rw [namespaceFrom]
      split
      · next name hname =>
        cases boundary with
        | false => exact absurd hname (by simp)
        | true => exact hdeclared hname
      · exact ih _
  exact hfrom true

theorem feed_not_mem_namespaceName (t : Text) : '\n' ∉ namespaceName t :=
  not_mem_namespaceName (by decide) (by decide +kernel) t

theorem return_not_mem_namespaceName (t : Text) : '\r' ∉ namespaceName t :=
  not_mem_namespaceName (by decide) (by decide +kernel) t

end

end Header

end EntitySplit
