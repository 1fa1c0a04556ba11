import EntitySplit.Proofs.Text.Lines

namespace EntitySplit

namespace Text

/-- A line feed with a carriage return before it, and any other character
    alone. -/
def withReturn (c : Char) : Text :=
  if c = '\n' then ['\r', '\n'] else [c]

/-- The text with a carriage return before each line feed. One that is there
    already gets a second one, so the proofs ask for texts without. -/
def withReturns (t : Text) : Text :=
  t.flatMap withReturn

section

variable {c : Char} {s t mark rest : Text}

@[simp] theorem withReturns_nil : withReturns [] = [] := rfl

@[simp] theorem withReturns_append (s t : Text) :
    withReturns (s ++ t) = withReturns s ++ withReturns t :=
  List.flatMap_append

@[simp] theorem withReturns_feed (t : Text) :
    withReturns ('\n' :: t) = '\r' :: '\n' :: withReturns t := rfl

theorem withReturns_cons (hc : c ≠ '\n') (t : Text) :
    withReturns (c :: t) = c :: withReturns t := by
  rw [withReturns, List.flatMap_cons, withReturn, if_neg hc]
  rfl

theorem withReturns_of_not_mem (hfeed : '\n' ∉ t) : withReturns t = t := by
  induction t with
  | nil => rfl
  | cons c t ih =>
    rw [List.mem_cons, not_or] at hfeed
    rw [withReturns_cons (Ne.symm hfeed.1), ih hfeed.2]

theorem exists_cons_withReturn (c : Char) : ∃ d more, withReturn c = d :: more := by
  unfold withReturn
  split
  · exact ⟨_, _, rfl⟩
  · exact ⟨_, _, rfl⟩

theorem mem_withReturns_of_mem (hc : c ∈ t) : c ∈ withReturns t := by
  refine List.mem_flatMap.2 ⟨c, hc, ?_⟩
  unfold withReturn
  split
  · next hfeed => simp [hfeed]
  · exact List.mem_singleton_self c

theorem withReturns_eq_nil_iff : withReturns t = [] ↔ t = [] := by
  constructor
  · intro h
    exact List.eq_nil_iff_forall_not_mem.2 fun c hc =>
      List.not_mem_nil (h ▸ mem_withReturns_of_mem hc)
  · rintro rfl
    rfl

theorem isEmpty_withReturns (t : Text) : (withReturns t).isEmpty = t.isEmpty := by
  rw [Bool.eq_iff_iff, List.isEmpty_iff, List.isEmpty_iff, withReturns_eq_nil_iff]

/-- Only a text without line feeds becomes one. -/
theorem eq_of_withReturns_eq (h : withReturns t = s) (hfeed : '\n' ∉ s) : t = s := by
  rw [← h, withReturns_of_not_mem fun hmem => hfeed (h ▸ mem_withReturns_of_mem hmem)]

/-- A carriage return stands right before each line feed. -/
def EachFeedReturned (t : Text) : Prop :=
  ∀ before after, t = before ++ '\n' :: after → before.getLast? = some '\r'

theorem eachFeedReturned_withReturns (t : Text) : EachFeedReturned (withReturns t) := by
  induction t with
  | nil => simp [EachFeedReturned]
  | cons c t ih =>
    intro before after heq
    by_cases hc : c = '\n'
    · subst hc
      rw [withReturns_feed] at heq
      rcases before with - | ⟨d, - | ⟨e, before⟩⟩
      · exact absurd (List.cons.inj heq).1 (by decide)
      · rw [← (List.cons.inj heq).1]
        rfl
      · have hlater := ih before after (List.cons.inj (List.cons.inj heq).2).2
        rw [List.getLast?_cons, List.getLast?_cons, hlater]
        rfl
    · rw [withReturns_cons hc] at heq
      cases before with
      | nil => exact absurd (List.cons.inj heq).1 hc
      | cons d before =>
        rw [List.getLast?_cons, ih before after (List.cons.inj heq).2]
        rfl

theorem lineEnding_of_not_mem (hreturn : '\r' ∉ t) : lineEnding t = ['\n'] := by
  have hholds : ¬holds ['\r', '\n'] t = true := by
    rw [holds_iff]
    exact fun hpiece => hreturn (hpiece.subset (by decide))
  rw [lineEnding, if_neg hholds]

/-- A text with carriage returns put in is taken for one of carriage returns
    and line feeds, if there is any line feed at all. -/
theorem lineEnding_withReturns (hfeed : '\n' ∈ t) : lineEnding (withReturns t) = ['\r', '\n'] := by
  obtain ⟨before, after, rfl⟩ := List.append_of_mem hfeed
  have hholds : holds ['\r', '\n'] (withReturns (before ++ '\n' :: after)) = true := by
    rw [holds_iff]
    exact ⟨withReturns before, withReturns after, by simp⟩
  rw [lineEnding, if_pos hholds]

section

variable {p : Char → Bool}

/-- A carriage return goes with its line feed: a test that does not tell the
    two apart tells the same of both. -/
theorem eq_of_mem_withReturn (hp : p '\r' = p '\n') : ∀ d ∈ withReturn c, p d = p c := by
  intro d hd
  unfold withReturn at hd
  split at hd
  · next hfeed =>
    subst hfeed
    rcases List.mem_cons.1 hd with rfl | hd
    · exact hp
    · rw [List.mem_singleton.1 hd]
  · rw [List.mem_singleton.1 hd]

/-- Runs of a text in which characters are replaced are the runs with the
    characters replaced, if the replacements pass the test together with the
    character. -/
theorem takeWhile_flatMap {f : Char → Text} (hne : ∀ c, f c ≠ []) (hf : ∀ c, ∀ d ∈ f c, p d = p c)
    (t : Text) :
    (t.flatMap f).takeWhile p = (t.takeWhile p).flatMap f ∧
      (t.flatMap f).dropWhile p = (t.dropWhile p).flatMap f := by
  induction t with
  | nil => exact ⟨rfl, rfl⟩
  | cons c t ih =>
    cases hc : p c with
    | true =>
      have hall : ∀ d ∈ f c, p d = true := fun d hd => (hf c d hd).trans hc
      rw [List.takeWhile_cons_of_pos hc, List.dropWhile_cons_of_pos hc, List.flatMap_cons,
        List.flatMap_cons, List.takeWhile_append_of_pos hall, List.dropWhile_append_of_pos hall,
        ih.1, ih.2]
      exact ⟨rfl, rfl⟩
    | false =>
      obtain ⟨d, more, hd⟩ := List.exists_cons_of_ne_nil (hne c)
      have hnot : ¬p d = true := by simp [hf c d (by simp [hd]), hc]
      have hnot' : ¬p c = true := by simp [hc]
      rw [List.takeWhile_cons_of_neg hnot', List.dropWhile_cons_of_neg hnot', List.flatMap_cons, hd,
        List.cons_append, List.takeWhile_cons_of_neg hnot, List.dropWhile_cons_of_neg hnot]
      exact ⟨rfl, rfl⟩

theorem withReturn_ne_nil (c : Char) : withReturn c ≠ [] := by
  obtain ⟨d, more, hd⟩ := exists_cons_withReturn c
  simp [hd]

theorem takeWhile_withReturns (hp : p '\r' = p '\n') (t : Text) :
    (withReturns t).takeWhile p = withReturns (t.takeWhile p) :=
  (takeWhile_flatMap withReturn_ne_nil (fun _ => eq_of_mem_withReturn hp) t).1

theorem dropWhile_withReturns (hp : p '\r' = p '\n') (t : Text) :
    (withReturns t).dropWhile p = withReturns (t.dropWhile p) :=
  (takeWhile_flatMap withReturn_ne_nil (fun _ => eq_of_mem_withReturn hp) t).2

/-- What is read from the end of a text comes with its last character first. -/
theorem reverse_withReturns (t : Text) :
    (withReturns t).reverse = t.reverse.flatMap fun c => (withReturn c).reverse :=
  List.reverse_flatMap

/-- Runs at the end of a text, for a test that does not tell the two characters
    of a line break apart. -/
theorem reverse_takeWhile_withReturns (hp : p '\r' = p '\n') (t : Text) :
    ((withReturns t).reverse.takeWhile p).reverse = withReturns (t.reverse.takeWhile p).reverse ∧
      ((withReturns t).reverse.dropWhile p).reverse =
        withReturns (t.reverse.dropWhile p).reverse := by
  have hruns := takeWhile_flatMap (f := fun c => (withReturn c).reverse) (p := p)
    (fun c => by simpa using withReturn_ne_nil c)
    (fun c d hd => eq_of_mem_withReturn hp d (List.mem_reverse.1 hd)) t.reverse
  constructor
  · rw [reverse_withReturns, hruns.1, List.reverse_flatMap]
    simp [withReturns, Function.comp_def]
  · rw [reverse_withReturns, hruns.2, List.reverse_flatMap]
    simp [withReturns, Function.comp_def]

/-- No line break is in a run of characters that holds neither of its
    characters. -/
theorem withReturns_takeWhile (hp : p '\n' = false) (t : Text) :
    withReturns (t.takeWhile p) = t.takeWhile p := by
  apply withReturns_of_not_mem
  intro hmem
  have hfeed := List.all_eq_true.1 List.all_takeWhile _ hmem
  rw [hp] at hfeed
  exact absurd hfeed (by decide)

end

/-- Both characters of a line break are white space. -/
theorem isBlank_return : isBlank '\r' = isBlank '\n' := by
  decide

/-- The white space at the ends is the same but for the carriage returns in it. -/
theorem trim_withReturns (t : Text) : trim (withReturns t) = withReturns (trim t) := by
  rw [trim, trim, dropWhile_withReturns isBlank_return, trimEnd, trimEnd,
    (reverse_takeWhile_withReturns isBlank_return _).2]

/-- What follows a mark without line breaks follows it with carriage returns
    put in. -/
theorem after?_withReturns (hmark : ∀ c ∈ mark, c ≠ '\r' ∧ c ≠ '\n') (t : Text) :
    after? mark (withReturns t) = (after? mark t).map withReturns := by
  induction mark generalizing t with
  | nil => rfl
  | cons m mark ih =>
    obtain ⟨hreturn, hfeed⟩ := hmark m List.mem_cons_self
    cases t with
    | nil => rfl
    | cons c t =>
      by_cases hc : c = '\n'
      · subst hc
        rw [withReturns_feed, after?_cons_of_ne hreturn, after?_cons_of_ne hfeed, Option.map_none]
      · rw [withReturns_cons hc, after?_cons_cons, after?_cons_cons]
        split
        · exact ih (fun d hd => hmark d (List.mem_cons_of_mem m hd)) t
        · rfl

/-- A text up to and with a mark is so with carriage returns put in, if the
    mark has none of the two characters. -/
theorem through_withReturns {m : Char} (hmark : ∀ c ∈ m :: mark, c ≠ '\r' ∧ c ≠ '\n') (t : Text) :
    through (m :: mark) (withReturns t) =
      (withReturns (through (m :: mark) t).1, withReturns (through (m :: mark) t).2) := by
  obtain ⟨hreturn, hfeed⟩ := hmark m List.mem_cons_self
  have hmarked : withReturns (m :: mark) = m :: mark :=
    withReturns_of_not_mem fun hmem => (hmark '\n' hmem).2 rfl
  induction t with
  | nil => rfl
  | cons c t ih =>
    have hafter := after?_withReturns hmark (c :: t)
    by_cases hc : c = '\n'
    · subst hc
      rw [withReturns_feed, through, after?_cons_of_ne hreturn, through, after?_cons_of_ne hfeed,
        through, after?_cons_of_ne hfeed, ih]
      rfl
    · rw [withReturns_cons hc] at hafter ⊢
      rw [through, hafter, through]
      cases after? (m :: mark) (c :: t) with
      | none =>
        simp only [Option.map_none, ih, withReturns_cons hc]
      | some rest =>
        simp only [Option.map_some, hmarked]

theorem through_feed_withReturns (t : Text) :
    through ['\n'] (withReturns t) =
      (withReturns (through ['\n'] t).1, withReturns (through ['\n'] t).2) := by
  induction t with
  | nil => rfl
  | cons c t ih =>
    by_cases hc : c = '\n'
    · subst hc
      rfl
    · have hne : '\n' ≠ c := Ne.symm hc
      rw [withReturns_cons hc, through, after?_cons_of_ne hne, through, after?_cons_of_ne hne, ih]
      simp only [withReturns_cons hc]

theorem withReturns_intercalate (sep : Text) (ls : List Text) :
    withReturns (sep.intercalate ls) = (withReturns sep).intercalate (ls.map withReturns) := by
  induction ls with
  | nil => rfl
  | cons line ls ih =>
    cases ls with
    | nil => simp
    | cons other ls =>
      rw [List.map_cons, List.map_cons, List.intercalate_cons_cons, List.intercalate_cons_cons,
        withReturns_append, withReturns_append, ih, List.map_cons]

theorem withReturns_flatMap (f : Text → Text) (ls : List Text) :
    withReturns (ls.flatMap f) = ls.flatMap fun line => withReturns (f line) := by
  rw [withReturns, List.flatMap_assoc]
  rfl

theorem withReturns_flatten (ls : List Text) :
    withReturns ls.flatten = (ls.map withReturns).flatten := by
  induction ls with
  | nil => rfl
  | cons line ls ih =>
    rw [List.flatten_cons, withReturns_append, ih, List.map_cons, List.flatten_cons]

/-- A text without carriage returns has the same lines, since those that are
    put in belong to the line breaks. -/
theorem lines_withReturns (hreturn : '\r' ∉ t) : lines (withReturns t) = lines t := by
  induction t using byLines with
  | last line hfeed => rw [withReturns_of_not_mem hfeed]
  | line line rest hfeed ih =>
    rw [List.mem_append, List.mem_cons, not_or, not_or] at hreturn
    obtain ⟨hline, -, hrest⟩ := hreturn
    have hfeed' : '\n' ∉ line ++ ['\r'] := by simpa using hfeed
    have hsplit :
      withReturns (line ++ '\n' :: rest) = line ++ ['\r'] ++ '\n' :: withReturns rest := by
      rw [withReturns_append, withReturns_of_not_mem hfeed]
      simp
    rw [hsplit, lines_append_feed hfeed', lines_append_feed hfeed, dropReturn_return,
      dropReturn_of_not_mem hline, ih hrest]

end

end Text

end EntitySplit
