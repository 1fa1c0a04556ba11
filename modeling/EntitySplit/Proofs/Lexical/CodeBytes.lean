import EntitySplit.Lexical.Segment
import EntitySplit.Proofs.Text.Bytes

namespace EntitySplit

namespace Lexical

/-- What stands behind the first `mark`: nothing if there is none. Marks may
    overlap the bytes before them, so every byte is tried. -/
def behindFirst (mark : Bytes) : Bytes → Bytes
  | [] => []
  | b :: s =>
    if mark <+: b :: s then (b :: s).drop mark.length else behindFirst mark s

/-- What stands behind a literal that `quote` closes and a line feed cuts
    short, neither counting behind a backslash. `escaped` tells that a
    backslash stands in front. -/
def behindQuoted (quote : UInt8) : (escaped : Bool) → Bytes → Bytes
  | _, [] => []
  | true, _ :: s => behindQuoted quote false s
  | false, b :: s =>
    if b = '\\'.toUInt8 then behindQuoted quote true s
    else if b = quote then s
    else if b = '\n'.toUInt8 then b :: s
    else behindQuoted quote false s

/-- What stands behind a verbatim string, in which two quotes stand for one.
    `quoted` tells that a quote stands in front which is not the second of two. -/
def behindVerbatim : (quoted : Bool) → Bytes → Bytes
  | _, [] => []
  | true, b :: s => if b = '"'.toUInt8 then behindVerbatim false s else b :: s
  | false, b :: s => behindVerbatim (b = '"'.toUInt8) s

def isMarkByte (b : UInt8) : Bool :=
  b = '@'.toUInt8 || b = '$'.toUInt8

/-- What stands behind the comment or literal at the beginning, the marks in
    front of it included. It reads nothing but bytes, and knows nothing of the
    characters that they make up. -/
def behindSkipped? (s : Bytes) : Option Bytes :=
  let marks := s.takeWhile isMarkByte
  let rest := s.dropWhile isMarkByte
  let quotes := rest.takeWhile (· = '"'.toUInt8)
  if Text.bytes ['/', '/'] <+: rest then some (behindFirst (Text.bytes ['\n']) (rest.drop 2))
  else if Text.bytes ['/', '*'] <+: rest
    then some (behindFirst (Text.bytes ['*', '/']) (rest.drop 2))
  else if Text.bytes ['\''] <+: rest then some (behindQuoted '\''.toUInt8 false (rest.drop 1))
  else if quotes = [] then none
  else if '@'.toUInt8 ∈ marks then some (behindVerbatim false (rest.drop 1))
  else if 3 ≤ quotes.length then some (behindFirst quotes (rest.drop quotes.length))
  else some (behindQuoted '"'.toUInt8 false (rest.drop 1))

section

variable {mark s rest : Bytes} {quote : UInt8}

theorem behindFirst_suffix (mark s : Bytes) : behindFirst mark s <:+ s := by
  induction s with
  | nil => exact List.suffix_rfl
  | cons b s ih =>
    rw [behindFirst]
    split
    · exact List.drop_suffix _ _
    · exact ih.trans (List.suffix_cons b s)

theorem behindQuoted_suffix (quote : UInt8) (escaped : Bool) (s : Bytes) :
    behindQuoted quote escaped s <:+ s := by
  fun_induction behindQuoted quote escaped s with
  | case1 => exact List.suffix_rfl
  | case2 b s ih => exact ih.trans (List.suffix_cons b s)
  | case3 s ih => exact ih.trans (List.suffix_cons _ s)
  | case4 s => exact List.suffix_cons _ s
  | case5 => exact List.suffix_rfl
  | case6 b s _ _ _ ih => exact ih.trans (List.suffix_cons b s)

theorem behindVerbatim_suffix (quoted : Bool) (s : Bytes) : behindVerbatim quoted s <:+ s := by
  fun_induction behindVerbatim quoted s with
  | case1 => exact List.suffix_rfl
  | case2 s ih => exact ih.trans (List.suffix_cons _ s)
  | case3 => exact List.suffix_rfl
  | case4 b s ih => exact ih.trans (List.suffix_cons b s)

/-- What is passed is never empty, so that the bytes of code can be collected
    by passing again and again. -/
theorem length_lt_of_behindSkipped? (h : behindSkipped? s = some rest) :
    rest.length < s.length := by
  have hdrop :
    ∀ {n u}, 0 < n → n ≤ (s.dropWhile isMarkByte).length → u <:+ (s.dropWhile isMarkByte).drop n →
        u.length < s.length := by
      intro n u hpositive hfits hu
      have hlength := hu.length_le
      have hle := (List.dropWhile_suffix isMarkByte (l := s)).length_le
      rw [List.length_drop] at hlength
      omega
  unfold behindSkipped? at h
  dsimp only at h
  split at h
  · next hmark =>
    cases h
    exact hdrop (by decide) hmark.length_le (behindFirst_suffix _ _)
  · split at h
    · next hmark =>
      cases h
      exact hdrop (by decide) hmark.length_le (behindFirst_suffix _ _)
    · split at h
      · next hmark =>
        cases h
        exact hdrop (by decide) hmark.length_le (behindQuoted_suffix _ _ _)
      · split at h
        · exact absurd h (by simp)
        · next hquotes =>
          have hpositive := List.length_pos_iff.2 hquotes
          have hfits :=
            (List.takeWhile_prefix (· = '"'.toUInt8) (l := s.dropWhile isMarkByte)).length_le
          split at h
          · cases h
            exact hdrop (by decide) (by omega) (behindVerbatim_suffix _ _)
          · split at h
            · cases h
              exact hdrop hpositive hfits (behindFirst_suffix _ _)
            · cases h
              exact hdrop (by decide) (by omega) (behindQuoted_suffix _ _ _)

end

/-- The bytes that are code, each with its position. The last byte stands just
    before the position `stop`, so that no position has to be carried along. -/
def codeBytes (stop : Nat) (s : Bytes) : List (Nat × UInt8) :=
  match s with
  | [] => []
  | b :: s =>
    match _hskipped : behindSkipped? (b :: s) with
    | some rest => codeBytes stop rest
    | none => (stop - (s.length + 1), b) :: codeBytes stop s
termination_by s.length
decreasing_by
  · exact length_lt_of_behindSkipped? _hskipped
  · exact Nat.lt_succ_self _

section

open Text (bytes IsAscii IsHigh)

variable {mark t rest : Text} {c quote : Char} {high : Bytes}

/-- Bytes of characters that are none of ASCII make no difference to the search
    for a mark of ASCII. -/
theorem behindFirst_high (hmark : ∀ m ∈ mark, IsAscii m) (hne : mark ≠ [])
    (hhigh : ∀ b ∈ high, IsHigh b) (s : Bytes) :
    behindFirst (bytes mark) (high ++ s) = behindFirst (bytes mark) s := by
  obtain ⟨m, mark, rfl⟩ := List.exists_cons_of_ne_nil hne
  have hm := hmark m List.mem_cons_self
  induction high with
  | nil => rfl
  | cons b high ih =>
    have hnot : ¬bytes (m :: mark) <+: b :: (high ++ s) := by
      rw [hm.bytes_cons, List.cons_prefix_cons]
      intro h
      exact (hhigh b List.mem_cons_self).ne_toUInt8 hm h.1.symm
    rw [List.cons_append, behindFirst, if_neg hnot]
    exact ih fun x hx => hhigh x (List.mem_cons_of_mem b hx)

/-- What stands behind the first mark is the same by bytes and by characters,
    if the mark is ASCII and not empty. -/
theorem behindFirst_bytes (hmark : ∀ m ∈ mark, IsAscii m) (hne : mark ≠ []) (t : Text) :
    behindFirst (bytes mark) (bytes t) = bytes (Text.through mark t).2 := by
  induction t with
  | nil => rfl
  | cons c t ih =>
    rw [Text.through]
    split
    · next rest hrest =>
      obtain heq := Text.eq_append_of_after? hrest
      obtain ⟨b, bs, hbytes, -⟩ := Text.exists_cons_utf8EncodeChar c
      have hprefix : bytes mark <+: bytes (c :: t) :=
        (Text.bytes_prefix_bytes_iff hmark).2 ⟨rest, heq.symm⟩
      have hdrop : (bytes (c :: t)).drop (bytes mark).length = bytes rest := by
        rw [heq, Text.bytes_append, List.drop_left]
      rw [Text.bytes_cons, hbytes, List.cons_append] at hprefix hdrop ⊢
      rw [behindFirst, if_pos hprefix, hdrop]
    · next hnone =>
      have hnot : ¬mark <+: c :: t := Text.after?_eq_none_iff.1 hnone
      by_cases hc : IsAscii c
      · rw [← Text.bytes_prefix_bytes_iff hmark, hc.bytes_cons] at hnot
        rw [hc.bytes_cons, behindFirst, if_neg hnot, ih]
      · rw [Text.bytes_cons, behindFirst_high hmark hne (Text.isHigh_of_mem_utf8EncodeChar hc), ih]

/-- Bytes of characters that are none of ASCII are passed in a literal, as they
    are neither quote, backslash nor line feed. -/
theorem behindQuoted_high (hquote : IsAscii quote) (hhigh : ∀ b ∈ high, IsHigh b) (s : Bytes) :
    behindQuoted quote.toUInt8 false (high ++ s) = behindQuoted quote.toUInt8 false s := by
  induction high with
  | nil => rfl
  | cons b high ih =>
    have hb := hhigh b List.mem_cons_self
    rw [List.cons_append, behindQuoted, if_neg (hb.ne_toUInt8 (by decide)),
      if_neg (hb.ne_toUInt8 hquote), if_neg (hb.ne_toUInt8 (by decide))]
    exact ih fun x hx => hhigh x (List.mem_cons_of_mem b hx)

/-- A literal ends at the same place by bytes and by characters. A backslash
    passes one byte, and the other bytes of the character behind it are passed
    as what they are. -/
theorem behindQuoted_bytes (hquote : IsAscii quote) (t : Text) :
    behindQuoted quote.toUInt8 false (bytes t) = bytes (throughQuote quote t).2 := by
  fun_induction throughQuote quote t with
  | case1 => rfl
  | case2 => rfl
  | case3 c t ih =>
    -- Of the character behind the backslash the first byte goes with it, and no other can end the
    -- literal.
    obtain ⟨b, bs, hbytes, hhigh⟩ := Text.exists_cons_utf8EncodeChar c
    rw [IsAscii.bytes_cons (by decide), Text.bytes_cons, hbytes, List.cons_append, behindQuoted,
      if_pos rfl, behindQuoted, behindQuoted_high hquote hhigh, ih]
  | case4 t hend hpair =>
    have hne : quote ≠ '\\' := by
      rintro rfl
      cases t with
      | nil => exact hend rfl rfl
      | cons c t => exact hpair c t rfl rfl
    rw [hquote.bytes_cons, behindQuoted, if_neg (hquote.toUInt8_ne (by decide) hne), if_pos rfl]
  | case5 t _ _ hne =>
    have hbyte : '\n'.toUInt8 ≠ quote.toUInt8 := IsAscii.toUInt8_ne (by decide) hquote hne
    rw [IsAscii.bytes_cons (by decide), behindQuoted, if_neg (by decide), if_neg hbyte, if_pos rfl]
  | case6 c t hend hpair hne hfeed ih =>
    have hescape : c ≠ '\\' := by
      rintro rfl
      cases t with
      | nil => exact hend rfl rfl
      | cons c t => exact hpair c t rfl rfl
    by_cases hc : IsAscii c
    · rw [hc.bytes_cons, behindQuoted, if_neg (hc.toUInt8_ne (by decide) hescape),
        if_neg (hc.toUInt8_ne hquote hne), if_neg (hc.toUInt8_ne (by decide) hfeed), ih]
    · rw [Text.bytes_cons, behindQuoted_high hquote (Text.isHigh_of_mem_utf8EncodeChar hc), ih]

/-- Bytes of characters that are none of ASCII are passed in a verbatim string. -/
theorem behindVerbatim_high (hhigh : ∀ b ∈ high, IsHigh b) (s : Bytes) :
    behindVerbatim false (high ++ s) = behindVerbatim false s := by
  induction high with
  | nil => rfl
  | cons b high ih =>
    have hb := hhigh b List.mem_cons_self
    rw [List.cons_append, behindVerbatim, decide_eq_false (hb.ne_toUInt8 (by decide))]
    exact ih fun x hx => hhigh x (List.mem_cons_of_mem b hx)

/-- A verbatim string ends at the same place by bytes and by characters, its
    only mark being the quote. -/
theorem behindVerbatim_bytes (t : Text) :
    behindVerbatim false (bytes t) = bytes (throughVerbatim t).2 := by
  fun_induction throughVerbatim t with
  | case1 => rfl
  | case2 t ih =>
    rw [IsAscii.bytes_cons (by decide), IsAscii.bytes_cons (by decide), behindVerbatim,
      decide_eq_true rfl, behindVerbatim, if_pos rfl, ih]
  | case3 t hpair =>
    rw [IsAscii.bytes_cons (by decide), behindVerbatim, decide_eq_true rfl]
    have hnot : ¬bytes ['"'] <+: bytes t := by
      rw [Text.bytes_prefix_bytes_iff (by simp [IsAscii])]
      rintro ⟨rest, rfl⟩
      exact hpair rest rfl rfl
    cases hbytes : bytes t with
    | nil => rfl
    | cons b s =>
      have hne : b ≠ '"'.toUInt8 := by
        rintro rfl
        rw [hbytes] at hnot
        exact hnot (List.prefix_append ['"'.toUInt8] s)
      rw [behindVerbatim, if_neg hne]
  | case4 c t _ hne ih =>
    by_cases hc : IsAscii c
    · rw [hc.bytes_cons, behindVerbatim, decide_eq_false (hc.toUInt8_ne (by decide) hne), ih]
    · rw [Text.bytes_cons, behindVerbatim_high (Text.isHigh_of_mem_utf8EncodeChar hc), ih]

/-- What stands behind the comment or literal at the beginning of a text, the
    marks in front of it having been read. It is `behindSkipped?` by
    characters. -/
def afterSkipped? (verbatim : Bool) : Text → Option Text
  | '/' :: '/' :: t => some (Text.through ['\n'] t).2
  | '/' :: '*' :: t => some (Text.through ['*', '/'] t).2
  | '\'' :: t => some (throughQuote '\'' t).2
  | '"' :: t => some (stringBody verbatim t).2
  | _ => none

theorem tests_isMarkByte : Text.Tests isMarkByte isStringMark where
  ascii hc := by
    have hat := (Text.tests_eq (d := '@') (by decide)).ascii hc
    have hdollar := (Text.tests_eq (d := '$') (by decide)).ascii hc
    rw [isMarkByte, isStringMark, hat, hdollar]
  high hb := by
    rw [isMarkByte, decide_eq_false (hb.ne_toUInt8 (by decide)),
      decide_eq_false (hb.ne_toUInt8 (by decide)), Bool.or_false]
  isAscii hc := by
    rcases Bool.or_eq_true _ _ ▸ hc with hc | hc
    · exact of_decide_eq_true hc ▸ by decide
    · exact of_decide_eq_true hc ▸ by decide

theorem takeWhile_quotes (t : Text) :
    (bytes t).takeWhile (· = '"'.toUInt8) = bytes (t.takeWhile (· = '"')) :=
  ((Text.tests_eq (by decide)).run_bytes t).1

/-- A raw string ends at the same place by bytes and by characters. Its fence
    is as many quotes as it begins with. -/
theorem behindFirst_fence (t : Text) :
    behindFirst (bytes ('"' :: t.takeWhile (· = '"')))
        ((bytes ('"' :: t)).drop (bytes ('"' :: t.takeWhile (· = '"'))).length) =
      bytes (Text.through ('"' :: t.takeWhile (· = '"')) (t.dropWhile (· = '"'))).2 := by
  have hascii : ∀ m ∈ '"' :: t.takeWhile (· = '"'), IsAscii m := by
    intro m hm
    rcases List.mem_cons.1 hm with rfl | hm
    · decide
    · have hquote : m = '"' := of_decide_eq_true (List.all_eq_true.1 List.all_takeWhile m hm)
      exact hquote ▸ by decide
  have hbytes :
    bytes ('"' :: t) = bytes ('"' :: t.takeWhile (· = '"')) ++ bytes (t.dropWhile (· = '"')) := by
    rw [← Text.bytes_append, List.cons_append, List.takeWhile_append_dropWhile]
  rw [hbytes, List.drop_left, behindFirst_bytes hascii (by simp)]

theorem length_bytes_quotes (t : Text) :
    (bytes (t.takeWhile (· = '"'))).length = (t.takeWhile (· = '"')).length := by
  rw [Text.length_bytes, (Text.tests_eq (by decide)).size_takeWhile]

/-- What stands behind a string, the marks before its quote telling of which
    kind it is. The three kinds are those of the program, in its order. -/
theorem behindString_bytes (marks t : Text) :
    (if '@'.toUInt8 ∈ bytes marks then some (behindVerbatim false ((bytes ('"' :: t)).drop 1))
      else if 3 ≤ (bytes ('"' :: t.takeWhile (· = '"'))).length then
        some (behindFirst (bytes ('"' :: t.takeWhile (· = '"')))
          ((bytes ('"' :: t)).drop (bytes ('"' :: t.takeWhile (· = '"'))).length))
      else some (behindQuoted '"'.toUInt8 false ((bytes ('"' :: t)).drop 1))) =
      some (bytes (stringBody (marks.contains '@') t).2) := by
  have hat : '@'.toUInt8 ∈ bytes marks ↔ marks.contains '@' = true := by
    rw [Text.mem_bytes_iff (by decide), List.contains_iff_mem]
  have hdrop : (bytes ('"' :: t)).drop 1 = bytes t := rfl
  have hlength := length_bytes_quotes ('"' :: t)
  rw [List.takeWhile_cons_of_pos (by decide)] at hlength
  rw [behindFirst_fence, hdrop, hlength, List.length_cons, stringBody]
  cases hverbatim : marks.contains '@' with
  | true =>
    rw [if_pos (hat.2 hverbatim), if_pos rfl]
    exact congrArg some (behindVerbatim_bytes t)
  | false =>
    have hnot : '@'.toUInt8 ∉ bytes marks := by
      rw [hat, hverbatim]
      decide
    simp only [if_neg hnot, Bool.false_eq_true, if_false]
    by_cases hfew : (t.takeWhile (· = '"')).length < 2
    · rw [if_neg (by omega), if_pos hfew]
      exact congrArg some (behindQuoted_bytes (by decide) t)
    · rw [if_pos (by omega), if_neg hfew]

/-- What is passed at the beginning of a text is the same by bytes and by
    characters. This is what makes the reference by bytes one for the reading
    by characters. -/
theorem behindSkipped?_bytes (t : Text) : behindSkipped? (bytes t) =
    (afterSkipped? ((t.takeWhile isStringMark).contains '@') (t.dropWhile isStringMark)).map
      bytes := by
  unfold behindSkipped?
  dsimp only
  rw [(tests_isMarkByte.run_bytes t).1, (tests_isMarkByte.run_bytes t).2, takeWhile_quotes]
  generalize t.takeWhile isStringMark = marks
  generalize t.dropWhile isStringMark = u
  have hslashes : ∀ m ∈ ['/', '/'], IsAscii m := by simp [IsAscii]
  have hstar : ∀ m ∈ ['/', '*'], IsAscii m := by simp [IsAscii]
  have htick : ∀ m ∈ ['\''], IsAscii m := by simp [IsAscii]
  have hpos : ∀ mark : Text, (∀ m ∈ mark, IsAscii m) → mark <+: u → bytes mark <+: bytes u :=
    fun mark hmark => (Text.bytes_prefix_bytes_iff hmark).2
  have hneg : ∀ mark : Text, (∀ m ∈ mark, IsAscii m) → ¬mark <+: u → ¬bytes mark <+: bytes u :=
    fun mark hmark hnot h => hnot ((Text.bytes_prefix_bytes_iff hmark).1 h)
  fun_cases afterSkipped? (marks.contains '@') u with
  | case1 rest =>
    rw [if_pos (hpos _ hslashes (by simp))]
    exact congrArg some (behindFirst_bytes (by simp [IsAscii]) (by simp) rest)
  | case2 rest =>
    rw [if_neg (hneg _ hslashes (by simp)), if_pos (hpos _ hstar (by simp))]
    exact congrArg some (behindFirst_bytes (by simp [IsAscii]) (by simp) rest)
  | case3 rest =>
    rw [if_neg (hneg _ hslashes (by simp)), if_neg (hneg _ hstar (by simp)),
      if_pos (hpos _ htick (by simp))]
    exact congrArg some (behindQuoted_bytes (by decide) rest)
  | case4 rest =>
    have hne : bytes ('"' :: rest.takeWhile (· = '"')) ≠ [] := by
      rw [IsAscii.bytes_cons (by decide)]
      simp
    rw [List.takeWhile_cons_of_pos (by decide), if_neg (hneg _ hslashes (by simp)),
      if_neg (hneg _ hstar (by simp)), if_neg (hneg _ htick (by simp)), if_neg hne]
    exact behindString_bytes marks rest
  | case5 _ hline hblock happostrophe hquote =>
    have hquotes : bytes (u.takeWhile (· = '"')) = [] := by
      cases u with
      | nil => rfl
      | cons c u =>
        rw [List.takeWhile_cons_of_neg]
        · rfl
        · intro hc
          exact hquote u (of_decide_eq_true hc ▸ rfl)
    rw [if_neg (hneg _ hslashes ?_), if_neg (hneg _ hstar ?_), if_neg (hneg _ htick ?_),
      if_pos hquotes]
    · rfl
    · rintro ⟨rest, rfl⟩
      exact happostrophe rest rfl
    · rintro ⟨rest, rfl⟩
      exact hblock rest rfl
    · rintro ⟨rest, rfl⟩
      exact hline rest rfl

end

end Lexical

end EntitySplit
