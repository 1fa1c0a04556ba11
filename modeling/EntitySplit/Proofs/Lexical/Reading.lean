import EntitySplit.Proofs.Lexical.Closer
import EntitySplit.Proofs.Lexical.Grammar

namespace EntitySplit

namespace Lexical

/-- The segments that a text begins with, `rest` being what follows them. It
    may stop between any two segments. -/
inductive Reads : (t : Text) → (segments : List Segment) → (rest : Text) → Prop where
  | done (t : Text) : Reads t [] t
  | next {t after rest : Text} {segment : Segment} {others : List Segment}
      (hnext : Segment.next? t = some (segment, after)) (hothers : Reads after others rest) :
      Reads t (segment :: others) rest

theorem segments_nil : segments [] = [] :=
  segments_of_next?_eq_none rfl

namespace Reads

variable {t u v : Text} {a b : List Segment}

/-- What has been read and the rest make up the text. -/
theorem text_eq (h : Reads t a u) : t = a.flatMap Segment.text ++ u := by
  induction h with
  | done => rfl
  | next hnext _ ih =>
    rw [List.flatMap_cons, List.append_assoc, ← ih, ← (Segment.eq_append_of_next? hnext).1]

/-- The segments of a text are those that have been read and those of the rest. -/
theorem segments_eq (h : Reads t a u) : segments t = a ++ segments u := by
  induction h with
  | done => rfl
  | next hnext _ ih => rw [segments_of_next? hnext, ih, List.cons_append]

theorem trans (h : Reads t a u) (h' : Reads u b v) : Reads t (a ++ b) v := by
  induction h with
  | done => exact h'
  | next hnext _ ih => exact .next hnext (ih h')

theorem single {segment : Segment} (hnext : Segment.next? t = some (segment, u)) :
    Reads t [segment] u :=
  .next hnext (.done u)

/-- Where segments are read one after another, there is a place between them. -/
theorem exists_of_append (h : Reads t (a ++ b) v) : ∃ u, Reads t a u ∧ Reads u b v := by
  induction a generalizing t with
  | nil => exact ⟨t, .done t, h⟩
  | cons segment a ih =>
    cases h with
    | next hnext hothers =>
      obtain ⟨u, hu, hv⟩ := ih hothers
      exact ⟨u, .next hnext hu, hv⟩

/-- A text can be read up to each place between two of its segments. -/
theorem of_segments_eq (h : segments t = a ++ b) : Reads t a (b.flatMap Segment.text) := by
  induction a generalizing t with
  | nil =>
    rw [← List.nil_append b, ← h, flatMap_text_segments]
    exact .done t
  | cons segment a ih =>
    cases hnext : Segment.next? t with
    | none =>
      rw [segments_of_next?_eq_none hnext] at h
      exact absurd h (by simp)
    | some found =>
      rw [segments_of_next? hnext, List.cons_append] at h
      obtain ⟨rfl, hothers⟩ := List.cons.inj h
      exact .next hnext (ih hothers)

/-- Two readings of one text go the same way, so the one that stops first can
    be gone on with. -/
theorem total (h : Reads t a u) (h' : Reads t b v) :
    (∃ more, Reads u more v) ∨ ∃ more, Reads v more u := by
  have heq : a ++ segments u = b ++ segments v := h.segments_eq.symm.trans h'.segments_eq
  rcases List.append_eq_append_iff.1 heq with ⟨more, -, hmore⟩ | ⟨more, -, hmore⟩
  · have hreads := of_segments_eq hmore
    rw [flatMap_text_segments] at hreads
    exact Or.inl ⟨more, hreads⟩
  · have hreads := of_segments_eq hmore
    rw [flatMap_text_segments] at hreads
    exact Or.inr ⟨more, hreads⟩

/-- A reading that stops before another one can be gone on with to where that
    one stops. Which one stops first is told by what is left. -/
theorem exists_of_length_le (h : Reads t a u) (h' : Reads t b v) (hle : v.length ≤ u.length) :
    ∃ more, Reads u more v := by
  rcases h.total h' with hmore | ⟨more, hmore⟩
  · exact hmore
  · have heq := hmore.text_eq
    have hlength := congrArg List.length heq
    rw [List.length_append] at hlength
    have hnil : more.flatMap Segment.text = [] := List.eq_nil_of_length_eq_zero (by omega)
    rw [hnil, List.nil_append] at heq
    exact ⟨[], heq ▸ .done v⟩

/-- A reading begins with any other that stops before it does. The rest of it
    is a reading of what the other has left. -/
theorem exists_eq_append (h : Reads t a u) (h' : Reads t b v) (hle : v.length ≤ u.length) :
    ∃ others, b = a ++ others ∧ Reads u others v := by
  obtain ⟨others, hothers⟩ := h.exists_of_length_le h' hle
  exact ⟨others, List.append_cancel_right (h'.segments_eq.symm.trans (h.trans hothers).segments_eq),
    hothers⟩

end Reads

/-- The text is read up to `rest` without remainder; which segments stand
    before it is left open. -/
def Reaches (t rest : Text) : Prop :=
  ∃ segments, Reads t segments rest

namespace Reaches

variable {t u v : Text}

theorem refl (t : Text) : Reaches t t :=
  ⟨[], .done t⟩

theorem trans (h : Reaches t u) (h' : Reaches u v) : Reaches t v := by
  obtain ⟨a, ha⟩ := h
  obtain ⟨b, hb⟩ := h'
  exact ⟨a ++ b, ha.trans hb⟩

theorem single {segment : Segment} (hnext : Segment.next? t = some (segment, u)) : Reaches t u :=
  ⟨[segment], .single hnext⟩

end Reaches

/-- Behind a character of code or a string, `y` makes nothing more of it than
    `x` does: it begins with no second character of a comment and with no
    quote, also behind marks, that `x` does not begin with. -/
structure BeginsNoMore (x y : Text) : Prop where
  quote : y.head? = some '"' → x.head? = some '"'
  slash : y.head? = some '/' → x.head? = some '/'
  star : y.head? = some '*' → x.head? = some '*'
  marked : (y.dropWhile isStringMark).head? = some '"' → (x.dropWhile isStringMark).head? = some '"'

/-- A literal that the end of its line cuts short. What is put behind it on the
    line belongs to it. -/
inductive Segment.CutShort : (segment : Segment) → Prop where
  | ordinary {marks body : Text} (hmarks : ∀ c ∈ marks, isStringMark c = true) (hat : '@' ∉ marks)
      (hbody : QuotedTail '"' false body) : CutShort (.literal (marks ++ '"' :: body))
  | character {body : Text} (hbody : QuotedTail '\'' false body) :
      CutShort (.literal ('\'' :: body))

/-- Behind any segment `y` can take the place of `x`: it begins nothing more,
    and it ends the line where `x` does. -/
structure YieldsTo (x y : Text) : Prop extends BeginsNoMore x y where
  lineEnd : AtLineEnd x → AtLineEnd y

/-- A literal that is closed ends with its quote; the premise tells that it is. -/
theorem QuotedTail.getLast?_eq {quote : Char} {closed : Bool} {body : Text}
    (h : QuotedTail quote closed body) (hclosed : closed = true) : body.getLast? = some quote := by
  induction h with
  | close => rfl
  | cut => exact absurd hclosed (by decide)
  | escape c _ ih => simp [List.getLast?_cons, ih hclosed]
  | plain _ _ _ _ ih => simp [List.getLast?_cons, ih hclosed]

theorem VerbatimTail.getLast?_eq {body : Text} (h : VerbatimTail body) :
    body.getLast? = some '"' := by
  induction h with
  | close => rfl
  | escape _ ih => simp [List.getLast?_cons, ih]
  | plain _ _ ih => simp [List.getLast?_cons, ih]

/-- A segment is a character of code, or it ends with a line feed, with the
    line, or with one of its own marks. -/
theorem Segment.FollowedBy.ends {segment : Segment} {rest : Text} (h : segment.FollowedBy rest) :
    (∃ c, segment = .code c) ∨
      (∃ body, '\n' ∉ body ∧ segment = .comment ('/' :: '/' :: (body ++ ['\n']))) ∨
      (segment.CutShort ∧ AtLineEnd rest) ∨
        ∃ c ∈ ['/', '"', '\''], segment.text.getLast? = some c := by
  cases h with
  | code => exact Or.inl ⟨_, rfl⟩
  | lineComment hbody => exact Or.inr (Or.inl ⟨_, hbody, rfl⟩)
  | blockComment hbody =>
    exact Or.inr (Or.inr (Or.inr ⟨'/', by decide, by simp [text, List.getLast?_cons]⟩))
  | verbatim hmarks hat hbody hrest =>
    exact Or.inr (Or.inr (Or.inr ⟨'"', by decide,
      by simp [text, List.getLast?_append, List.getLast?_cons, hbody.getLast?_eq]⟩))
  | @ordinary _ _ _ closed hmarks hat hbody _ hcut =>
    cases closed with
    | false => exact Or.inr (Or.inr (Or.inl ⟨.ordinary hmarks hat hbody, hcut rfl⟩))
    | true =>
      exact Or.inr (Or.inr (Or.inr ⟨'"', by decide,
        by simp [text, List.getLast?_append, List.getLast?_cons, hbody.getLast?_eq rfl]⟩))
  | @raw marks fence body _ _ _ hfence hlength _ _ =>
    have hne : fence ≠ [] := by
      rintro rfl
      simp at hlength
    refine Or.inr (Or.inr (Or.inr ⟨'"', by decide, ?_⟩))
    simp only [text, ← List.append_assoc]
    rw [List.getLast?_append_of_ne_nil _ hne, List.getLast?_eq_some_getLast hne,
      hfence _ (List.getLast_mem hne)]
  | @character _ _ closed hbody hcut =>
    cases closed with
    | false => exact Or.inr (Or.inr (Or.inl ⟨.character hbody, hcut rfl⟩))
    | true =>
      exact Or.inr
        (Or.inr (Or.inr
        ⟨'\'', by decide, by simp [text, List.getLast?_cons, hbody.getLast?_eq rfl]⟩))

section

variable {x y t rest : Text} {segment : Segment} {c : Char}

/-- A literal that is cut short may stand wherever a line ends. -/
theorem Segment.CutShort.followedBy (h : segment.CutShort) (hend : AtLineEnd rest) :
    segment.FollowedBy rest := by
  cases h with
  | ordinary hmarks hat hbody =>
    refine .ordinary hmarks hat hbody (fun _ hquote => ?_) fun _ => hend
    exact absurd (hend '"' hquote) (by decide)
  | character hbody => exact .character hbody fun _ => hend

/-- A segment is the same with a text behind it that begins nothing more,
    unless it is cut short by what stood there. -/
theorem Segment.FollowedBy.exchange_or_cutShort (h : segment.FollowedBy x)
    (hbegins : BeginsNoMore x y) :
    segment.FollowedBy y ∨ (segment.CutShort ∧ AtLineEnd x) := by
  cases h with
  | code hquote hcomment hmarks =>
    left
    refine .code hquote ?_ fun hmark hhead => hmarks hmark (hbegins.marked hhead)
    intro hslash
    exact ⟨mt hbegins.slash (hcomment hslash).1, mt hbegins.star (hcomment hslash).2⟩
  | lineComment hbody => exact Or.inl (.lineComment hbody)
  | blockComment hbody => exact Or.inl (.blockComment hbody)
  | verbatim hmarks hat hbody hrest =>
    exact Or.inl (.verbatim hmarks hat hbody (mt hbegins.quote hrest))
  | @ordinary _ _ _ closed hmarks hat hbody hempty hcut =>
    cases closed with
    | false => exact Or.inr ⟨.ordinary hmarks hat hbody, hcut rfl⟩
    | true =>
      exact Or.inl
        (.ordinary hmarks hat hbody (fun hnil => mt hbegins.quote (hempty hnil)) (by simp))
  | raw hmarks hat hfence hlength hhead hbody =>
    exact Or.inl (.raw hmarks hat hfence hlength hhead hbody)
  | @character _ _ closed hbody hcut =>
    cases closed with
    | false => exact Or.inr ⟨.character hbody, hcut rfl⟩
    | true => exact Or.inl (.character hbody (by simp))

/-- A segment is the same with another text behind it that ends the line as
    well. Together with `next?_append_of_followedBy` this lets a text be read
    again. -/
theorem Segment.FollowedBy.exchange (h : segment.FollowedBy x) (hyields : YieldsTo x y) :
    segment.FollowedBy y := by
  rcases h.exchange_or_cutShort hyields.toBeginsNoMore with hfollowed | ⟨hcut, hend⟩
  · exact hfollowed
  · exact hcut.followedBy (hyields.lineEnd hend)

/-- Behind a common beginning a text may begin what it likes to; only the marks
    of a string look further, and the premise covers these. -/
theorem BeginsNoMore.append (h : BeginsNoMore x y) {t : Text} (hne : t ≠ []) :
    YieldsTo (t ++ x) (t ++ y) := by
  obtain ⟨c, t, rfl⟩ := List.exists_cons_of_ne_nil hne
  refine ⟨⟨id, id, id, ?_⟩, id⟩
  obtain ⟨run, u, hsplit, hrun, hstop⟩ := Text.exists_run isStringMark (c :: t)
  rw [hsplit, List.append_assoc, List.append_assoc, List.dropWhile_append_of_pos hrun,
    List.dropWhile_append_of_pos hrun]
  cases u with
  | nil => exact h.marked
  | cons d u =>
    have hd : ¬isStringMark d = true := by simp [hstop d rfl]
    rw [List.cons_append, List.cons_append, List.dropWhile_cons_of_neg hd,
      List.dropWhile_cons_of_neg hd]
    exact id

namespace YieldsTo

/-- A text that begins with the same character can take the place, unless that
    character is a mark of a string and what follows it counts as well. -/
theorem cons (hmark : isStringMark c = false) : YieldsTo (c :: x) (c :: y) := by
  have hnot : ¬isStringMark c = true := by simp [hmark]
  refine ⟨⟨id, id, id, ?_⟩, id⟩
  rw [List.dropWhile_cons_of_neg hnot, List.dropWhile_cons_of_neg hnot]
  exact id

/-- Behind a common text another one can take the place of the rest, be that
    text empty or not. -/
theorem append (h : YieldsTo x y) (t : Text) : YieldsTo (t ++ x) (t ++ y) := by
  by_cases hnil : t = []
  · rw [hnil]
    exact h
  · exact h.toBeginsNoMore.append hnil

end YieldsTo

/-- The characters of code that mean nothing to the character before them. -/
def IsPlain (c : Char) : Prop :=
  c ∉ ['"', '/', '*', '@', '$']
deriving Decidable

/-- A text that begins with a plain character, or is empty, begins no more than
    any other. Nothing is asked of the other. -/
theorem beginsNoMore_of_isPlain (hplain : ∀ c ∈ y.head?, IsPlain c) : BeginsNoMore x y := by
  have hnot (c : Char) (hc : c ∈ ['"', '/', '*', '@', '$']) : y.head? ≠ some c :=
    fun hhead => hplain c hhead hc
  refine ⟨?_, ?_, ?_, ?_⟩
  · exact fun hhead => absurd hhead (hnot '"' (by decide))
  · exact fun hhead => absurd hhead (hnot '/' (by decide))
  · exact fun hhead => absurd hhead (hnot '*' (by decide))
  · intro hhead
    have hsame : y.dropWhile isStringMark = y := by
      cases y with
      | nil => rfl
      | cons c y =>
        have hc : c ∉ ['"', '/', '*', '@', '$'] := hplain c rfl
        simp only [List.mem_cons, List.not_mem_nil, or_false, not_or] at hc
        exact List.dropWhile_cons_of_neg (by simp [isStringMark, hc])
    rw [hsame] at hhead
    exact absurd hhead (hnot '"' (by decide))

/-- What has been read is read again with another text in the place of the
    rest. There must be a rest, as only with something behind it is a segment
    known to be closed. -/
theorem Reads.exchange {segments : List Segment} (h : Reads t segments x) (hx : x ≠ [])
    (hyields : YieldsTo x y) :
    Reads (segments.flatMap Segment.text ++ y) segments y := by
  induction h with
  | done => exact .done y
  | @next t after x segment others hnext hothers ih =>
    have hafter := hothers.text_eq
    have hne : after ≠ [] := by
      rw [hafter]
      exact List.append_ne_nil_of_right_ne_nil _ hx
    obtain ⟨-, hfollowed⟩ := (next?_eq_some_iff hne).1 hnext
    rw [hafter] at hfollowed
    have hnext' := next?_append_of_followedBy (hfollowed.exchange (hyields.append _))
    rw [List.flatMap_cons, List.append_assoc]
    exact .next hnext' (ih hx hyields)

end

/-- What is inside of a delimiter holds the segments that are read up to the
    closer. Alone it is read to the end, where nothing is open; a line feed as
    closer would have ended a comment. -/
theorem Reads.segments_inside {inside rest : Text} {read : List Segment} {closer : Char}
    (hcloser : closer ≠ '\n')
    (h : Reads (inside ++ closer :: rest) read (closer :: rest)) : segments inside = read := by
  have hyields : YieldsTo (closer :: rest) [] :=
    ⟨beginsNoMore_of_isPlain (by simp), fun hend => absurd (hend closer rfl) hcloser⟩
  have halone := (h.exchange (List.cons_ne_nil _ _) hyields).segments_eq
  rwa [List.append_nil, ← List.append_cancel_right h.text_eq, segments_nil, List.append_nil]
    at halone

/-- What stands between an opener and its closer is read up to the closer,
    which is code. On the way the delimiters balance. -/
theorem Closes.exists_reads {opener closer : Char} {inside rest : Text}
    (h : Closes opener closer inside rest) :
    ∃ segments, Reads (inside ++ closer :: rest) segments (closer :: rest) ∧
      Reads (closer :: rest) [.code closer] rest ∧ Balanced opener closer 0 segments ∧
      inside = segments.flatMap Segment.text := by
  obtain ⟨pre, post, hsegments, hbalanced, hinside, hrest⟩ := h
  have hreads := Reads.of_segments_eq hsegments
  rw [List.flatMap_cons, ← hrest, Segment.text, List.singleton_append] at hreads
  have hclose : segments (closer :: rest) = [.code closer] ++ post := by
    rw [hreads.segments_eq] at hsegments
    exact List.append_cancel_left hsegments
  have hcloser := Reads.of_segments_eq hclose
  rw [← hrest] at hcloser
  exact ⟨pre, hreads, hcloser, hbalanced, hinside⟩

section

/-- What all characters of a text satisfy is decided along the text: there are
    finitely many characters, and trying each of them decides it too, but never
    ends. -/
instance decidableForallMem {p : Char → Prop} [DecidablePred p] {t : Text} :
    Decidable (∀ c ∈ t, p c) :=
  List.decidableBAll p t

/-- The characters that begin no comment and no literal, whatever follows.
    Marks of a string are among them, since alone they begin nothing. -/
def BeginsNothing (c : Char) : Prop :=
  c ∉ ['"', '\'', '/']
deriving Decidable

/-- Characters that begin nothing are code, if the last of them is no mark of a
    string. What follows them is arbitrary. -/
theorem reads_code {run : Text} (hrun : ∀ c ∈ run, BeginsNothing c)
    (hlast : ∀ c ∈ run.getLast?, isStringMark c = false) (rest : Text) :
    Reads (run ++ rest) (run.map .code) rest := by
  induction run with
  | nil => exact .done rest
  | cons c run ih =>
    have hc : c ∉ ['"', '\'', '/'] := hrun c List.mem_cons_self
    simp only [List.mem_cons, List.not_mem_nil, or_false, not_or] at hc
    have hrun' : ∀ d ∈ run, BeginsNothing d := fun d hd => hrun d (List.mem_cons_of_mem c hd)
    have hlast' : ∀ d ∈ run.getLast?, isStringMark d = false := by
      intro d hd
      apply hlast d
      rw [List.getLast?_cons, Option.mem_def.1 hd]
      rfl
    have hmarks :
      isStringMark c = true → ((run ++ rest).dropWhile isStringMark).head? ≠ some '"' := by
      intro hmark
      obtain ⟨marks, t, hsplit, hmarks, hstop⟩ := Text.exists_run isStringMark (c :: run)
      rw [← List.dropWhile_cons_of_pos (l := run ++ rest) hmark, ← List.cons_append, hsplit,
        List.append_assoc, List.dropWhile_append_of_pos hmarks]
      cases t with
      | nil =>
        have hfinal := hlast _ (List.getLast?_eq_some_getLast (List.cons_ne_nil c run))
        have hmem : (c :: run).getLast (List.cons_ne_nil c run) ∈ c :: run := List.getLast_mem _
        rw [List.append_nil] at hsplit
        rw [hmarks _ (hsplit ▸ hmem)] at hfinal
        exact absurd hfinal (by decide)
      | cons d t =>
        rw [List.cons_append, List.dropWhile_cons_of_neg (by simp [hstop d rfl]), List.head?_cons]
        intro hquote
        have hd : BeginsNothing d := hrun d (by simp [hsplit])
        exact hd (by simp [Option.some.inj hquote])
    have hfollowed : (Segment.code c).FollowedBy (run ++ rest) :=
      .code ⟨hc.1, hc.2.1⟩ (fun hslash => absurd hslash hc.2.2) hmarks
    exact .next (next?_append_of_followedBy hfollowed) (ih hrun' hlast')

end

theorem not_mem_of_all {p : Char → Bool} {marks : List Char} {c : Char}
    (hp : marks.all (!p ·) = true) (hc : p c = true) : c ∉ marks := by
  intro hmem
  have hnot := List.all_eq_true.1 hp c hmem
  rw [hc] at hnot
  exact absurd hnot (by decide)

/-- Whether a character neither begins a comment or a literal nor marks a
    string. -/
def isInert (c : Char) : Bool :=
  !(['"', '\'', '/', '@', '$'].contains c)

section

variable {c : Char} {run : Text}

/-- A property that the five characters lack makes a character inert; word
    characters and white space are such. -/
theorem isInert_of {p : Char → Bool} (hp : ['"', '\'', '/', '@', '$'].all (!p ·) = true)
    (hc : p c = true) :
    isInert c = true := by
  rw [isInert, List.contains_eq_mem, Bool.not_eq_true', decide_eq_false_iff_not]
  exact not_mem_of_all hp hc

theorem beginsNothing_of_isInert (hc : isInert c = true) : BeginsNothing c :=
  not_mem_of_all (by decide) hc

theorem isStringMark_of_isInert (hc : isInert c = true) : isStringMark c = false := by
  have hmarks : c ∉ ['@', '$'] := not_mem_of_all (by decide) hc
  simpa [isStringMark] using hmarks

/-- An inert character at the beginning of a text is code, whatever follows. -/
theorem next?_inert (hc : isInert c = true) (t : Text) :
    Segment.next? (c :: t) = some (.code c, t) := by
  have hplain := beginsNothing_of_isInert hc
  simp only [BeginsNothing, List.mem_cons, List.not_mem_nil, or_false, not_or] at hplain
  have hmark : isStringMark c = true → (t.dropWhile isStringMark).head? ≠ some '"' := by
    rw [isStringMark_of_isInert hc]
    exact fun h => absurd h (by decide)
  have hcomment : comment? (c :: t) = none :=
    comment?_eq_none_iff.2 fun hslash => absurd hslash hplain.2.2
  have hliteral : literal? (c :: t) = none := literal?_eq_none_iff.2 ⟨⟨hplain.1, hplain.2.1⟩, hmark⟩
  rw [Segment.next?, hcomment, hliteral]

/-- Inert characters are read one by one as code, whatever follows. -/
theorem reads_of_isInert (hrun : ∀ c ∈ run, isInert c = true) (rest : Text) :
    Reads (run ++ rest) (run.map .code) rest := by
  apply reads_code
  · exact fun c hc => beginsNothing_of_isInert (hrun c hc)
  · exact fun c hc => isStringMark_of_isInert (hrun c (List.mem_of_getLast? hc))

end

end Lexical

end EntitySplit
