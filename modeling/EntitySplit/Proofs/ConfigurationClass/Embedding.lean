import EntitySplit.ConfigurationClass.Embedded
import EntitySplit.Proofs.Header.Cut
import EntitySplit.Proofs.Text.Copies

namespace EntitySplit

namespace ConfigurationClass

open Text (copies isBlank IsBreak)

/-- The directives that a text lacks are those without a copy in it, a copy
    being a line that reads like the directive but for white space around it. -/
theorem missingUsings_eq (existing : Text) (usings : List Text) :
    missingUsings existing usings = usings.filter (copies · existing = 0) := by
  unfold missingUsings
  refine congrArg (List.filter · usings) (funext fun directive => ?_)
  rw [Bool.eq_iff_iff]
  simp [copies, List.countP_eq_zero]

theorem missingUsings_nil (existing : Text) : missingUsings existing [] = [] :=
  rfl

theorem withUsings_nil (existing eol : Text) : withUsings existing [] eol = existing := by
  unfold withUsings
  split
  · next head tail hsplit => simp [Header.eq_append_of_splitAfterUsings? hsplit]
  · simp

/-- The directives that are missing are added, and then the declaration. The
    second step takes place as if no directives were asked for, so the two can
    be counted apart. -/
theorem embedInto_eq (existing declaration : Text) (usings : List Text) (eol : Text) :
    embedInto existing declaration usings eol =
      embedInto (withUsings existing (missingUsings existing usings) eol) declaration [] eol := by
  simp only [embedInto, missingUsings_nil, withUsings_nil]

/-- On the line of the last `using` directive of a text nothing follows it but
    white space. If something does, the directives put in there push it to a
    line of its own and are not found again by the next class. -/
def EndsUsingLine (existing : Text) : Prop :=
  ∀ head tail, Header.splitAfterUsings? existing = some (head, tail) →
    ∀ c ∈ tail.takeWhile (· ≠ '\n'), isBlank c = true

section

variable {line existing file declaration eol : Text} {usings added : List Text}

/-- Appending a declaration alone adds to the copies of a line those that the
    declaration has. An empty line is left out of account, as appending adds
    some of these. -/
theorem copies_embedInto_nil (hne : line ≠ []) (heol : IsBreak eol) :
    copies line (embedInto file declaration [] eol) =
      copies line file + copies line declaration := by
  simp only [embedInto, missingUsings_nil, withUsings_nil, List.append_assoc]
  split
  · rw [List.nil_append, Text.copies_append_break hne heol, Text.copies_append_only_break hne heol]
  · rw [Text.copies_append_break hne heol, Text.copies_break_append hne heol,
      Text.copies_append_only_break hne heol]

/-- Adding directives to a file adds each as often as it is listed, and takes
    no line away. `hends` is what keeps the line of the last directive what it
    was. -/
theorem copies_withUsings (hne : line ≠ []) (heol : IsBreak eol)
    (hadded : ∀ directive ∈ added, '\n' ∉ directive ∧ Text.trim directive = directive)
    (hends : EndsUsingLine existing) :
    copies line (withUsings existing added eol) = copies line existing + added.count line := by
  unfold withUsings
  split
  · next head tail hsplit =>
    obtain ⟨blanks, rest, rfl, hblanks, hstop⟩ := Text.exists_run (· ≠ '\n') tail
    have hblank := hends head _ hsplit
    rw [Text.takeWhile_run_append hblanks hstop] at hblank
    have hfeed : '\n' ∉ blanks := fun hmem => absurd (hblanks '\n' hmem) (by decide)
    rw [Header.eq_append_of_splitAfterUsings? hsplit]
    cases rest with
    | nil =>
      rw [List.append_nil, Text.copies_append_blanks hne hblank hfeed,
        Text.copies_append_blanks hne hblank hfeed, Text.copies_append_flatMap hne heol hadded]
    | cons c rest =>
      obtain rfl : c = '\n' := by simpa using hstop c rfl
      rw [← List.append_assoc, ← List.append_assoc, Text.copies_append_feed hne,
        Text.copies_append_feed hne, Text.copies_append_blanks hne hblank hfeed,
        Text.copies_append_blanks hne hblank hfeed, Text.copies_append_flatMap hne heol hadded]
      omega
  · rw [List.append_assoc, Text.copies_flatMap_append hne heol hadded, Nat.add_comm]
    split
    · rw [List.nil_append]
    · rw [Text.copies_break_append hne heol]

/-- An empty line stands before what is appended, so that an empty directive is
    never missing twice. -/
theorem copies_nil_embedInto_pos (heol : IsBreak eol) :
    0 < copies [] (embedInto file declaration usings eol) := by
  unfold embedInto
  dsimp only
  generalize withUsings file (missingUsings file usings) eol = written
  rw [List.append_assoc _ eol, List.append_assoc _ (eol ++ declaration), List.append_assoc eol]
  apply Text.copies_nil_pos heol
  split
  · next hwritten =>
    rw [Bool.or_eq_true, List.isEmpty_iff] at hwritten
    rwa [List.append_nil]
  · exact Or.inr (Text.endsLine_append_break heol written)

/-- A missing directive is as often among the missing as it is listed, and one
    that stands in the file already is not among them at all. -/
theorem count_missingUsings (line existing : Text) (usings : List Text) :
    (missingUsings existing usings).count line = if copies line existing = 0 then usings.count line
      else 0 := by
  rw [missingUsings_eq]
  split
  · next hnone => rw [List.count_filter (by simpa using hnone)]
  · next hsome =>
    rw [List.count_eq_zero]
    simp [hsome]

/-- Directives as they are listed: each is a line without white space at its
    ends. Others would not be recognised in the file they were added to. -/
def AreLines (usings : List Text) : Prop :=
  ∀ directive ∈ usings, '\n' ∉ directive ∧ Text.trim directive = directive

/-- The copies of a line after a class has been appended: those from before,
    those of the directives that were missing, and those of the class. `hends`
    is asked for only if some directive is missing. -/
theorem copies_embedInto (hne : line ≠ []) (heol : IsBreak eol) (husings : AreLines usings)
    (hends : missingUsings existing usings ≠ [] → EndsUsingLine existing) :
    copies line (embedInto existing declaration usings eol) =
      copies line existing + (if copies line existing = 0 then usings.count line else 0) +
        copies line declaration := by
  rw [embedInto_eq, copies_embedInto_nil hne heol, ← count_missingUsings]
  by_cases hmissing : missingUsings existing usings = []
  · rw [hmissing, withUsings_nil, List.count_nil, Nat.add_zero]
  · have hadded : AreLines (missingUsings existing usings) :=
      fun directive hmem => husings directive (List.mem_filter.1 hmem).1
    rw [copies_withUsings hne heol hadded (hends hmissing)]

/-- A file that lacks none of the directives, which is the state that appending
    a class leaves and keeps. -/
def HoldsAll (usings : List Text) (file : Text) : Prop :=
  ∀ directive ∈ usings, 0 < copies directive file

/-- Nothing is missing in a file that lacks none of the directives. -/
theorem HoldsAll.missingUsings_eq_nil (h : HoldsAll usings file) :
    missingUsings file usings = [] := by
  rw [missingUsings_eq, List.filter_eq_nil_iff]
  intro directive hmem
  simpa using Nat.ne_of_gt (h directive hmem)

/-- Once a class has been appended, the file lacks none of the directives,
    whatever it lacked before. -/
theorem holdsAll_embedInto (heol : IsBreak eol) (husings : AreLines usings)
    (hends : missingUsings existing usings ≠ [] → EndsUsingLine existing) :
    HoldsAll usings (embedInto existing declaration usings eol) := by
  intro directive hmem
  by_cases hne : directive = []
  · subst hne
    exact copies_nil_embedInto_pos heol
  · have hlisted : 0 < usings.count directive := List.count_pos_iff.2 hmem
    rw [copies_embedInto hne heol husings hends]
    split
    · omega
    · omega

/-- A file with declarations appended to it, one after another, each time with
    the same list of directives. -/
def embedAll (existing : Text) (declarations usings : List Text) (eol : Text) : Text :=
  declarations.foldl (embedInto · · usings eol) existing

/-- A file that lacks no directive is given none, however many classes follow.
    The induction rests on appending a class keeping `HoldsAll`. -/
theorem HoldsAll.embedAll_eq (heol : IsBreak eol) (husings : AreLines usings)
    (h : HoldsAll usings file) (declarations : List Text) :
    embedAll file declarations usings eol = embedAll file declarations [] eol := by
  induction declarations generalizing file with
  | nil => rfl
  | cons declaration declarations ih =>
    have hnext : HoldsAll usings (embedInto file declaration usings eol) :=
      holdsAll_embedInto heol husings fun hmissing => absurd h.missingUsings_eq_nil hmissing
    have hsame : embedInto file declaration usings eol = embedInto file declaration [] eol := by
      rw [embedInto_eq, h.missingUsings_eq_nil, withUsings_nil]
    rw [hsame] at hnext
    rw [embedAll, List.foldl_cons, hsame]
    exact ih hnext

/-- Apart from the declarations, appending them adds no line but empty ones. -/
theorem copies_embedAll_nil (hne : line ≠ []) (heol : IsBreak eol) (file : Text)
    (declarations : List Text) :
    copies line (embedAll file declarations [] eol) =
      copies line file + (declarations.flatMap Text.lines).countP (Text.trim · = line) := by
  induction declarations generalizing file with
  | nil => rfl
  | cons declaration declarations ih =>
    have hrest := ih (embedInto file declaration [] eol)
    rw [copies_embedInto_nil hne heol, Nat.add_assoc] at hrest
    rwa [List.flatMap_cons, List.countP_append]

/-- Over a whole sequence of classes the directives that the file lacks are put
    in once, each as often as it is listed, and none that stands there already:
    apart from what the classes hold themselves, the file has no further line
    that reads like a directive. At least one class is needed, as without any
    nothing is put in; `hends` keeps the first insertion recognisable for the
    classes after it. -/
theorem directives_inserted_once (heol : IsBreak eol) (husings : AreLines usings)
    (hends : missingUsings existing usings ≠ [] → EndsUsingLine existing) {declarations : List Text}
    (hsome : declarations ≠ []) :
    embedAll existing declarations usings eol =
        embedAll (withUsings existing (missingUsings existing usings) eol) declarations [] eol ∧
      (∀ directive, (missingUsings existing usings).count directive =
        if copies directive existing = 0 then usings.count directive else 0) ∧
      ∀ line, line ≠ [] → copies line (embedAll existing declarations usings eol) =
        copies line existing + (if copies line existing = 0 then usings.count line else 0) +
          (declarations.flatMap Text.lines).countP (Text.trim · = line) := by
  obtain ⟨declaration, declarations, rfl⟩ := List.exists_cons_of_ne_nil hsome
  have hfirst : HoldsAll usings (embedInto existing declaration usings eol) :=
    holdsAll_embedInto heol husings hends
  have hrest := hfirst.embedAll_eq heol husings declarations
  refine ⟨?_, fun directive => count_missingUsings directive existing usings, ?_⟩
  · rw [embedInto_eq] at hrest
    rwa [embedAll, embedAll, List.foldl_cons, List.foldl_cons, embedInto_eq]
  · intro line hne
    have hcopies :=
      copies_embedAll_nil hne heol (embedInto existing declaration usings eol) declarations
    rw [← hrest, copies_embedInto hne heol husings hends, Nat.add_assoc] at hcopies
    rwa [List.flatMap_cons, List.countP_append]

end

/-- Two classes in a file that has one of two directives already: the other
    comes to stand there once. -/
theorem directives_inserted_once_two_classes :
    copies "using X;".toList (embedAll "using System;\r\n\r\nclass A;\r\n".toList
      ["class F;".toList, "class G;".toList] ["using System;".toList, "using X;".toList]
        ['\r', '\n']) = 1 := by
  have hlines : AreLines ["using System;".toList, "using X;".toList] := by
    unfold AreLines
    decide +kernel
  have hends : EndsUsingLine "using System;\r\n\r\nclass A;\r\n".toList := by
    intro head tail hsplit
    have hcut : Header.splitAfterUsings? "using System;\r\n\r\nclass A;\r\n".toList =
        some ("using System;".toList, "\r\n\r\nclass A;\r\n".toList) := by decide +kernel
    obtain ⟨rfl, rfl⟩ := Prod.mk.inj (Option.some.inj (hcut.symm.trans hsplit))
    decide +kernel
  obtain ⟨-, -, hcopies⟩ := directives_inserted_once (Or.inr rfl) hlines (fun _ => hends)
    (List.cons_ne_nil "class F;".toList ["class G;".toList])
  rw [hcopies "using X;".toList (by decide +kernel)]
  decide +kernel

/-- A directive that is listed twice is put in twice, since what is missing is
    decided before any is put in. -/
theorem listed_directive_repeated :
    copies "using X;".toList (embedAll "class A;\n".toList ["class F;".toList]
      ["using X;".toList, "using X;".toList] ['\n']) = 2 := by
  decide +kernel

/-- A comment behind the last directive comes to stand behind the one put in,
    which the next class puts in again. -/
example :
    (Header.usings (embedAll "using System; // core\n".toList ["class F;".toList, "class G;".toList]
    ["using X;".toList] ['\n'])).count "using X;".toList = 2 := by
  decide +kernel

end ConfigurationClass

end EntitySplit
