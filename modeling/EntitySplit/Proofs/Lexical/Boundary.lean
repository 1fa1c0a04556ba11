import EntitySplit.Proofs.Lexical.Visible
import EntitySplit.Proofs.Text.Lines

namespace EntitySplit

namespace Lexical

open Text (isBlank IsBreak)

section

variable {x y v : Text} {segments : List Segment}

/-- A place in what is read stands between two segments or within one. The
    segments before it and behind it are read as they are in the whole. -/
theorem Reads.exists_at (h : Reads (x ++ y) segments v) (hle : v.length ≤ y.length) :
    (∃ a b, segments = a ++ b ∧ Reads (x ++ y) a y ∧ Reads y b v) ∨
      ∃ a segment b p q z, segments = a ++ segment :: b ∧ Reads (x ++ y) a (segment.text ++ z) ∧
        Segment.next? (segment.text ++ z) = some (segment, z) ∧ Reads z b v ∧
          segment.text = p ++ q ∧ q ≠ [] ∧
        x = a.flatMap Segment.text ++ p ∧ p ≠ [] ∧ y = q ++ z := by
  generalize ht : x ++ y = t at h
  induction h generalizing x with
  | done t =>
    obtain rfl : x = [] := by
      rw [← ht, List.length_append] at hle
      exact List.eq_nil_of_length_eq_zero (by omega)
    obtain rfl := ht
    exact Or.inl ⟨[], [], rfl, .done _, .done _⟩
  | @next t after v segment others hnext hothers ih =>
    obtain ⟨htext, hne⟩ := Segment.eq_append_of_next? hnext
    subst ht
    rcases List.append_eq_append_iff.1 htext with ⟨q, hsegment, rfl⟩ | ⟨front, rfl, rfl⟩
    · -- The segment reaches the place.
      by_cases hq : q = []
      · subst hq
        exact Or.inl ⟨[segment], others, rfl, .single hnext, hothers⟩
      · by_cases hx : x = []
        · subst hx
          exact Or.inl ⟨[], segment :: others, rfl, .done _, .next hnext hothers⟩
        · have hread := hnext
          rw [htext] at hread
          exact Or.inr
            ⟨[], segment, others, x, q, after, rfl, htext ▸ .done _, hread, hothers, hsegment, hq,
            rfl, hx,
            rfl⟩
    · rcases ih hle rfl with ⟨a, b, rfl, ha, hb⟩ |
        ⟨a, within, b, p, q, z, rfl, ha, hread, hb, hwithin, hq, rfl, hp, rfl⟩
      · exact Or.inl ⟨segment :: a, b, rfl, .next hnext ha, hb⟩
      · refine Or.inr
          ⟨segment :: a, within, b, p, q, z, rfl, .next hnext ha, hread, hb, hwithin, hq, ?_, hp,
          rfl⟩
        rw [List.flatMap_cons, List.append_assoc]

/-- White space is read one by one as code, whatever follows it. -/
theorem reads_blanks {blanks : Text} (hblanks : ∀ c ∈ blanks, isBlank c = true) (rest : Text) :
    Reads (blanks ++ rest) (blanks.map .code) rest :=
  reads_of_isInert (fun c hc => isInert_of (by decide) (hblanks c hc)) rest

/-- White space is read one by one. So what is read up to its end is known. -/
theorem Reads.eq_map_of_isBlank {blanks : Text} (hblanks : ∀ c ∈ blanks, isBlank c = true)
    (h : Reads (blanks ++ v) segments v) : segments = blanks.map .code :=
  List.append_cancel_right (h.segments_eq.symm.trans (reads_blanks hblanks v).segments_eq)

end

/-- A literal takes in a line feed behind which nothing but white space comes.
    A backslash before the line feed does this, and a verbatim or raw string
    that is not closed. -/
def LiteralTrails (segments : List Segment) : Prop :=
  ∃ a front blanks b, segments = a ++ .literal (front ++ '\n' :: blanks) :: b ∧
    ∀ c ∈ blanks ++ b.flatMap Segment.text, isBlank c = true

/-- No literal does so if code comes last, white space apart. -/
theorem not_literalTrails_of_code {segments : List Segment} {c : Char}
    (hlast : (visible segments).getLast? = some (.code c)) : ¬LiteralTrails segments := by
  rintro ⟨a, front, blanks, b, rfl, hblanks⟩
  obtain ⟨-, hb⟩ := List.forall_mem_append.1 hblanks
  rw [visible_append, visible_cons rfl, List.getLast?_append, List.getLast?_cons, Option.some_or]
    at hlast
  cases hbehind : (visible b).getLast? with
  | none =>
    rw [hbehind] at hlast
    exact absurd hlast (by simp)
  | some segment =>
    rw [hbehind, Option.getD_some, Option.some.injEq] at hlast
    subst hlast
    obtain ⟨hmem, hvisible⟩ := List.mem_filter.1 (List.mem_of_getLast? hbehind)
    have hblank := hb c (List.mem_flatMap.2 ⟨_, hmem, List.mem_singleton_self c⟩)
    rw [Segment.isBlank, hblank] at hvisible
    exact absurd hvisible (by decide)

section

variable {eol x blanks v w : Text} {segments : List Segment}

/-- What white space takes the place of is never followed by less: it begins no
    comment and no string, whatever stands behind it. There must be some white
    space, since without any this would be said of what stands behind it. -/
theorem beginsNoMore_of_isBlank {y : Text} (hblanks : ∀ c ∈ blanks, isBlank c = true)
    (hne : blanks ≠ []) :
    BeginsNoMore y (blanks ++ w) := by
  apply beginsNoMore_of_isPlain
  intro c hc
  rw [List.head?_append_of_ne_nil _ hne] at hc
  exact not_mem_of_all (by decide) (hblanks c (List.mem_of_mem_head? hc))

/-- A segment that ends within white space and begins before it is a line
    comment or a literal cut short. The other segments end with a mark of their
    own. -/
theorem Segment.FollowedBy.within_blanks {segment : Segment} {p q z : Text}
    (h : segment.FollowedBy z) (hsegment : segment.text = p ++ q) (hp : p ≠ []) (hq : q ≠ [])
    (hblanks : ∀ c ∈ q, Text.isBlank c = true) :
    (∃ body, '\n' ∉ body ∧ segment = .comment ('/' :: '/' :: (body ++ ['\n']))) ∨
      (segment.CutShort ∧ AtLineEnd z) := by
  rcases h.ends with ⟨c, rfl⟩ | hcomment | hcut | ⟨c, hc, hlast⟩
  · have hlength := congrArg List.length hsegment
    have hpositive := List.length_pos_iff.2 hp
    have hpositive' := List.length_pos_iff.2 hq
    rw [List.length_append] at hlength
    exact absurd hlength (by simp [Segment.text]; omega)
  · exact Or.inl hcomment
  · exact Or.inr hcut
  · rw [hsegment, List.getLast?_append_of_ne_nil p hq] at hlast
    exact absurd hc (not_mem_of_all (by decide) (hblanks c (List.mem_of_getLast? hlast)))

section

variable {t z : Text} {a : List Segment} {segment : Segment}

/-- Whatever comes behind a line comment, it is read up to there: the line feed
    that ends it is its own. -/
theorem Reads.append_lineComment {body : Text} (hbody : '\n' ∉ body)
    (h : Reads t a ('/' :: '/' :: (body ++ ['\n']) ++ z)) (w : Text) :
    Reads (a.flatMap Segment.text ++ ('/' :: '/' :: (body ++ ['\n']) ++ w))
      (a ++ [.comment ('/' :: '/' :: (body ++ ['\n']))]) w :=
  (h.exchange (List.cons_ne_nil _ _) (.cons (by decide))).trans
    (.single (next?_append_of_followedBy (.lineComment hbody)))

/-- Whatever comes behind the line feed that cuts a literal short, it is read
    up to there. The line feed itself is code. -/
theorem Reads.append_cutShort (hcut : segment.CutShort) (hz : z ≠ [])
    (h : Reads t a (segment.text ++ z)) (w : Text) :
    Reads (a.flatMap Segment.text ++ (segment.text ++ '\n' :: w))
      (a ++ [segment, .code '\n']) w := by
  have hne : segment.text ≠ [] := by
    cases hcut with
    | ordinary => simp [Segment.text]
    | character => simp [Segment.text]
  have hplain : ∀ c ∈ ('\n' :: w).head?, IsPlain c := by
    intro c hc
    obtain rfl := Option.some.inj hc
    decide
  have hline : AtLineEnd ('\n' :: w) := fun c hc => (Option.some.inj hc).symm
  refine (h.exchange (by simp [hz]) ((beginsNoMore_of_isPlain hplain).append hne)).trans ?_
  exact .next (next?_append_of_followedBy (hcut.followedBy hline))
    (.single (next?_inert (by decide) w))

end

/-- White space at the end of what is read begins behind a segment, or else
    within one that the end of a line ends. There must be something behind, or
    an unclosed segment could take the white space in. -/
theorem Reads.exists_before_blanks (h : Reads (x ++ (blanks ++ v)) segments v)
    (hblanks : ∀ c ∈ blanks, isBlank c = true) (hv : v ≠ []) :
    (∃ a, segments = a ++ blanks.map .code ∧ x = a.flatMap Segment.text ∧
      Reads (x ++ (blanks ++ v)) a (blanks ++ v)) ∨
      ∃ a segment p q rest, segments = a ++ segment :: rest.map .code ∧
        x = a.flatMap Segment.text ++ p ∧
        blanks = q ++ rest ∧ segment.text = p ++ q ∧ q ≠ [] ∧
        Reads (x ++ (blanks ++ v)) a (segment.text ++ (rest ++ v)) ∧
        ((∃ body, '\n' ∉ body ∧ segment = .comment ('/' :: '/' :: (body ++ ['\n']))) ∨
          (segment.CutShort ∧ AtLineEnd (rest ++ v))) := by
  rcases h.exists_at (by simp) with ⟨a, b, rfl, ha, hb⟩ |
    ⟨a, segment, b, p, q, z, rfl, ha, hread, hb, hsegment, hq, rfl, hp, hbehind⟩
  · obtain rfl := hb.eq_map_of_isBlank hblanks
    exact Or.inl ⟨a, rfl, List.append_cancel_right ha.text_eq, ha⟩
  · obtain rfl := hb.text_eq
    obtain rfl : blanks = q ++ b.flatMap Segment.text := by
      rw [← List.append_assoc] at hbehind
      exact List.append_cancel_right hbehind
    generalize hrest : b.flatMap Segment.text = rest at *
    obtain ⟨hqBlank, hrestBlank⟩ := List.forall_mem_append.1 hblanks
    obtain rfl := hb.eq_map_of_isBlank hrestBlank
    obtain ⟨-, hfollowed⟩ := (next?_eq_some_iff (by simp [hv])).1 hread
    exact Or.inr ⟨a, segment, p, q, rest, rfl, rfl, rfl, hsegment, hq, ha,
      hfollowed.within_blanks hsegment hp hq hqBlank⟩

theorem ne_nil_of_not_atLineEnd (hv : ¬AtLineEnd v) : v ≠ [] := by
  rintro rfl
  exact hv (by simp [AtLineEnd])

/-- Of the white space at the end of a text, a line comment takes in the line
    break that the white space begins with, and nothing else of it. -/
theorem eq_break_of_lineComment {body p q rest : Text} (heol : IsBreak eol) (hbody : '\n' ∉ body)
    (hsegment : '/' :: '/' :: (body ++ ['\n']) = p ++ q) (hq : q ≠ [])
    (hstart : eol <+: q ++ rest) : q = eol := by
  obtain ⟨ret, hret, rfl⟩ := heol.exists_return
  obtain ⟨more, hmore⟩ := hstart
  obtain ⟨last, c, rfl⟩ : ∃ last c, q = last ++ [c] :=
    ⟨_, _, (List.dropLast_concat_getLast hq).symm⟩
  have hends : '/' :: '/' :: body ++ ['\n'] = p ++ last ++ [c] := by
    rw [List.append_assoc, ← hsegment]
    rfl
  obtain ⟨hfront, hc⟩ := List.append_inj' hends rfl
  obtain rfl := List.singleton_inj.1 hc
  have hlast : '\n' ∉ last := by
    intro hmem
    have hmem' : '\n' ∈ '/' :: '/' :: body := hfront ▸ List.mem_append_right p hmem
    simp [hbody] at hmem'
  obtain ⟨rfl, -⟩ := Text.append_feed_inj hret hlast (by simpa using hmore)
  rfl

/-- Of that white space, a literal takes in no line feed, unless literals
    trail. So it ends on its own line. -/
theorem not_mem_of_not_literalTrails {a : List Segment} {t p q rest : Text}
    (htrails : ¬LiteralTrails (a ++ .literal t :: rest.map .code)) (hsegment : t = p ++ q)
    (hblanks : ∀ c ∈ q ++ rest, isBlank c = true) : '\n' ∉ q := by
  intro hmem
  obtain ⟨hq, hrest⟩ := List.forall_mem_append.1 hblanks
  obtain ⟨q, behind, rfl⟩ := List.append_of_mem hmem
  refine htrails ⟨a, p ++ q, behind, rest.map .code, ?_, ?_⟩
  · rw [List.append_assoc, ← hsegment]
  · rw [flatMap_text_map_code]
    exact List.forall_mem_append.2 ⟨fun c hc => hq c (by simp [hc]), hrest⟩

/-- Behind statements that white space ends, the text is read up to the end of
    the line whatever comes then, unless a literal takes it in. The white space
    begins with the line break, or there is none and the break is put in. -/
theorem Reads.exists_through_break (heol : IsBreak eol) (h : Reads (x ++ (blanks ++ v)) segments v)
    (hblanks : ∀ c ∈ blanks, isBlank c = true) (hstart : blanks = [] ∨ eol <+: blanks)
    (hv : ¬AtLineEnd v) (htrails : ¬LiteralTrails segments) :
    ∃ segments', (∀ w, Reads (x ++ (eol ++ w)) segments' w) ∧
      visible segments' = visible segments := by
  have hne := ne_nil_of_not_atLineEnd hv
  rcases h.exists_before_blanks hblanks hne with ⟨a, rfl, hx, ha⟩ |
    ⟨a, segment, p, q, rest, rfl, rfl, rfl, hsegment, hq, ha, ⟨body, hbody, rfl⟩ | ⟨hcut, hend⟩⟩
  · have heolNe : eol ≠ [] := by
      rcases heol with h | h <;> simp [h]
    have hyields (w : Text) : YieldsTo (blanks ++ v) (eol ++ w) := by
      refine ⟨beginsNoMore_of_isBlank heol.isBlank heolNe, fun hend => ?_⟩
      rcases hstart with rfl | ⟨more, rfl⟩
      · exact absurd hend hv
      · rw [AtLineEnd, List.append_assoc, List.head?_append_of_ne_nil _ heolNe] at hend
        rwa [AtLineEnd, List.head?_append_of_ne_nil _ heolNe]
    refine ⟨a ++ eol.map .code, fun w => ?_, ?_⟩
    · rw [hx]
      exact (ha.exchange (by simp [hne]) (hyields w)).trans (reads_blanks heol.isBlank w)
    · rw [visible_append, visible_append, visible_blanks heol.isBlank, visible_blanks hblanks]
  · -- The line feed ends a line comment.
    obtain rfl :=
      eq_break_of_lineComment heol hbody hsegment hq (hstart.resolve_left (by simp [hq]))
    refine ⟨a ++ [.comment ('/' :: '/' :: (body ++ ['\n']))], fun w => ?_, ?_⟩
    · rw [List.append_assoc, ← List.append_assoc p, ← hsegment]
      exact ha.append_lineComment hbody w
    · exact (visible_append_blanks a _ (List.forall_mem_append.1 hblanks).2).symm
  · -- A literal is cut short by the line feed.
    obtain ⟨t, rfl⟩ : ∃ t, segment = .literal t := by
      cases hcut with
      | ordinary => exact ⟨_, rfl⟩
      | character => exact ⟨_, rfl⟩
    have hfeed := not_mem_of_not_literalTrails htrails hsegment hblanks
    obtain ⟨more, hmore⟩ := hstart.resolve_left (by simp [hq])
    obtain ⟨ret, hret, hbreak⟩ := heol.exists_return
    cases rest with
    | nil => exact absurd hend hv
    | cons c rest =>
      obtain rfl := hend c rfl
      rw [hbreak, List.append_assoc, List.singleton_append] at hmore
      obtain ⟨rfl, -⟩ := Text.append_feed_inj hret hfeed hmore
      refine ⟨a ++ [.literal t, .code '\n'], fun w => ?_, ?_⟩
      · have hread := ha.append_cutShort hcut (by simp) w
        rw [hsegment] at hread
        simpa [hbreak] using hread
      · exact (visible_append_blanks a _ (by decide : ∀ c ∈ ['\n'], isBlank c = true)).trans
          (visible_append_blanks a _ (List.forall_mem_append.1 hblanks).2).symm

/-- White space without a line feed may be any other. What comes behind it must
    begin with a plain character, as with nothing between them it would meet
    the last segment. -/
theorem Reads.exchange_blanks {blanks' v' : Text} (h : Reads (x ++ (blanks ++ v)) segments v)
    (hblanks : ∀ c ∈ blanks, isBlank c = true) (hfeed : '\n' ∉ blanks) (hv : ¬AtLineEnd v)
    (hblanks' : ∀ c ∈ blanks', isBlank c = true) (hplain : ∀ c ∈ v'.head?, IsPlain c) :
    ∃ segments', Reads (x ++ (blanks' ++ v')) segments' v' ∧
      visible segments' = visible segments := by
  have hne := ne_nil_of_not_atLineEnd hv
  have hline {more : Text} (hmore : '\n' ∉ more) : ¬AtLineEnd (more ++ v) := by
    cases more with
    | nil => exact hv
    | cons c more => exact fun hend => hmore (hend c rfl ▸ List.mem_cons_self)
  rcases h.exists_before_blanks hblanks hne with ⟨a, rfl, hx, ha⟩ |
    ⟨a, segment, p, q, rest, rfl, rfl, rfl, hsegment, hq, ha, ⟨body, -, rfl⟩ | ⟨-, hend⟩⟩
  · have hyields : YieldsTo (blanks ++ v) (blanks' ++ v') := by
      refine ⟨?_, fun hend => absurd hend (hline hfeed)⟩
      by_cases hnil : blanks' = []
      · rw [hnil]
        exact beginsNoMore_of_isPlain hplain
      · exact beginsNoMore_of_isBlank hblanks' hnil
    rw [hx]
    refine ⟨_, (ha.exchange (by simp [hne]) hyields).trans (reads_blanks hblanks' v'), ?_⟩
    rw [visible_append, visible_append, visible_blanks hblanks, visible_blanks hblanks']
  · have hlast : '\n' ∈ q.getLast? := by
      rw [← List.getLast?_append_of_ne_nil p hq, ← hsegment, Segment.text, ← List.cons_append,
        ← List.cons_append]
      exact List.getLast?_concat
    exact absurd (List.mem_append_left _ (List.mem_of_getLast? hlast)) hfeed
  · exact absurd hend (hline fun hmem => hfeed (List.mem_append_right q hmem))

end

end Lexical

end EntitySplit
