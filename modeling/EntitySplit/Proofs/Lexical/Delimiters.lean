import Mathlib.Order.Bounds.Basic
import EntitySplit.Lexical.Cursor
import EntitySplit.Proofs.Lexical.CodeBytes
import EntitySplit.Proofs.Lexical.Reading

namespace EntitySplit

namespace Lexical

open Text (bytes IsAscii IsHigh)

section

variable {c : Char} {t rest comment literal : Text} {segment : Segment} {stop : Nat} {s : Bytes}
  {behind : Bytes}

/-- Where a comment is read, the bytes pass it. -/
theorem behindSkipped?_of_comment? (h : comment? t = some (comment, rest)) :
    behindSkipped? (bytes t) = some (bytes rest) := by
  rw [behindSkipped?_bytes]
  unfold comment? at h
  split at h
  · cases h
    rfl
  · cases h
    rfl
  · exact absurd h (by simp)

/-- Where a literal is read, the bytes pass it with the marks in front of it. -/
theorem behindSkipped?_of_literal? (h : literal? t = some (literal, rest)) :
    behindSkipped? (bytes t) = some (bytes rest) := by
  rw [behindSkipped?_bytes]
  unfold literal? at h
  dsimp only at h
  split at h
  · next u hdrop =>
    cases h
    rw [hdrop]
    rfl
  · next u hdrop =>
    split at h
    · cases h
      rw [hdrop]
      rfl
    · exact absurd h (by simp)
  · exact absurd h (by simp)

/-- Where code stands nothing is passed, if it is no quote of either kind. -/
theorem afterSkipped?_of_code (hcomment : comment? t = none) (happostrophe : t.head? ≠ some '\'')
    (hquote : t.head? ≠ some '"') (verbatim : Bool) : afterSkipped? verbatim t = none := by
  fun_cases afterSkipped? verbatim t with
  | case1 t => exact absurd hcomment (by simp [comment?])
  | case2 t => exact absurd hcomment (by simp [comment?])
  | case3 t => exact absurd rfl happostrophe
  | case4 t => exact absurd rfl hquote
  | case5 => rfl

theorem afterSkipped?_of_not_quote (hquote : t.head? ≠ some '"') (verbatim verbatim' : Bool) :
    afterSkipped? verbatim t = afterSkipped? verbatim' t := by
  fun_cases afterSkipped? verbatim t with
  | case1 => rfl
  | case2 => rfl
  | case3 => rfl
  | case4 => exact absurd rfl hquote
  | case5 t hline hblock happostrophe hstring =>
    rw [afterSkipped?]
    · exact hline
    · exact hblock
    · exact happostrophe
    · exact hstring

/-- Whether code stands at the beginning is told by the bytes as by the
    characters, but for marks of a string without a string behind them: these
    are taken out with what stands there. No delimiter is such a mark, so the
    count of delimiters is the same. -/
theorem behindSkipped?_of_next? (hnext : Segment.next? t = some (segment, rest)) :
    behindSkipped? (bytes t) =
      match segment with
      | .code c => if isStringMark c then behindSkipped? (bytes rest) else none
      | _ => some (bytes rest) := by
  cases t with
  | nil => exact absurd hnext (by simp [Segment.next?])
  | cons c t =>
    rw [Segment.next?] at hnext
    split at hnext
    · next hcomment =>
      cases hnext
      exact behindSkipped?_of_comment? hcomment
    · next hcomment =>
      split at hnext
      · next hliteral =>
        cases hnext
        exact behindSkipped?_of_literal? hliteral
      · next hliteral =>
        cases hnext
        obtain ⟨⟨hquote, happostrophe⟩, hmark⟩ := literal?_eq_none_iff.1 hliteral
        dsimp only
        rw [behindSkipped?_bytes]
        by_cases hc : isStringMark c = true
        · rw [if_pos hc, behindSkipped?_bytes, List.dropWhile_cons_of_pos hc]
          exact congrArg _ (afterSkipped?_of_not_quote (hmark hc) _ _)
        · rw [if_neg hc, List.takeWhile_cons_of_neg hc, List.dropWhile_cons_of_neg hc,
            afterSkipped?_of_code hcomment (by simpa using happostrophe) (by simpa using hquote)]
          rfl

theorem behindSkipped?_nil : behindSkipped? [] = none := by
  decide

theorem codeBytes_of_some (h : behindSkipped? s = some behind) :
    codeBytes stop s = codeBytes stop behind := by
  cases s with
  | nil =>
    rw [behindSkipped?_nil] at h
    exact absurd h (by simp)
  | cons b s =>
    rw [codeBytes]
    split
    · next hbehind =>
      rw [h, Option.some.injEq] at hbehind
      rw [hbehind]
    · next hnone =>
      rw [h] at hnone
      exact absurd hnone (by simp)

theorem codeBytes_of_none {b : UInt8} (h : behindSkipped? (b :: s) = none) :
    codeBytes stop (b :: s) = (stop - (s.length + 1), b) :: codeBytes stop s := by
  rw [codeBytes]
  split
  · next hbehind =>
    rw [h] at hbehind
    exact absurd hbehind (by simp)
  · rfl

/-- Where a byte of a character stands that is none of ASCII, nothing is
    passed. -/
theorem behindSkipped?_high {b : UInt8} (hb : IsHigh b) (s : Bytes) :
    behindSkipped? (b :: s) = none := by
  have hmark : ¬isMarkByte b = true := by simp [tests_isMarkByte.high hb]
  have hquotes : (b :: s).takeWhile (· = '"'.toUInt8) = [] :=
    List.takeWhile_cons_of_neg (by simpa using hb.ne_toUInt8 (by decide))
  have hnot : ∀ m mark, IsAscii m → ¬bytes (m :: mark) <+: b :: s := by
    intro m mark hm
    rw [hm.bytes_cons, List.cons_prefix_cons]
    exact fun h => hb.ne_toUInt8 hm h.1.symm
  unfold behindSkipped?
  dsimp only
  rw [List.dropWhile_cons_of_neg hmark, if_neg (hnot _ _ (by decide)),
    if_neg (hnot _ _ (by decide)), if_neg (hnot _ _ (by decide)), if_pos hquotes]

end

/-- The characters that can be told apart in code by their byte alone: those of
    ASCII that neither begin a comment or a literal nor mark a string. -/
def IsDelimiter (c : Char) : Prop :=
  IsAscii c ∧ isInert c = true
deriving Decidable

/-- How often a byte stands at a position up to `last`. Only the bytes of code
    are given to it. -/
def countUpTo (code : List (Nat × UInt8)) (last : Nat) (b : UInt8) : Nat :=
  code.countP fun (position, c) => c = b ∧ position ≤ last

section

variable {c delimiter : Char} {t rest : Text} {segment : Segment} {stop last : Nat} {s : Bytes}

/-- The bytes of code stand where the bytes do of which they are taken. -/
theorem position_of_mem_codeBytes {at' : Nat × UInt8} (h : at' ∈ codeBytes stop s) :
    stop - s.length ≤ at'.1 := by
  fun_induction codeBytes stop s with
  | case1 => exact absurd h (by simp)
  | case2 b s behind hbehind ih =>
    have hlt := length_lt_of_behindSkipped? hbehind
    have hle := ih h
    omega
  | case3 b s hnone ih =>
    rcases List.mem_cons.1 h with rfl | h
    · exact Nat.le_refl _
    · have hle := ih h
      rw [List.length_cons]
      omega

/-- Nothing stands up to a position before all of the bytes. -/
theorem countUpTo_eq_zero (h : last < stop - s.length) (b : UInt8) :
    countUpTo (codeBytes stop s) last b = 0 := by
  rw [countUpTo, List.countP_eq_zero]
  intro at' hat
  have hle := position_of_mem_codeBytes hat
  have hnot : ¬at'.1 ≤ last := by omega
  simp [hnot]

theorem countUpTo_cons (position : Nat) (b b' : UInt8) (code : List (Nat × UInt8)) :
    countUpTo ((position, b) :: code) last b' =
      (if b = b' ∧ position ≤ last then 1 else 0) + countUpTo code last b' := by
  rw [countUpTo, List.countP_cons, Nat.add_comm]
  simp only [decide_eq_true_eq]
  rfl

/-- Bytes of characters that are none of ASCII do not count for a delimiter. -/
theorem countUpTo_high (hdelimiter : IsAscii delimiter) {high : Bytes}
    (hhigh : ∀ b ∈ high, IsHigh b) (s : Bytes) :
    countUpTo (codeBytes stop (high ++ s)) last delimiter.toUInt8 =
      countUpTo (codeBytes stop s) last delimiter.toUInt8 := by
  induction high with
  | nil => rfl
  | cons b high ih =>
    have hb := hhigh b List.mem_cons_self
    rw [List.cons_append, codeBytes_of_none (behindSkipped?_high hb _), countUpTo_cons,
      if_neg fun h => hb.ne_toUInt8 hdelimiter h.1, Nat.zero_add]
    exact ih fun x hx => hhigh x (List.mem_cons_of_mem b hx)

/-- A segment counts if it is the delimiter and stands early enough. Comments,
    literals and all other code do not count. -/
theorem countUpTo_of_next? (hdelimiter : IsDelimiter delimiter)
    (hnext : Segment.next? t = some (segment, rest)) :
    countUpTo (codeBytes stop (bytes t)) last delimiter.toUInt8 =
      (if segment = .code delimiter ∧ stop - t.size ≤ last then 1 else 0) +
        countUpTo (codeBytes stop (bytes rest)) last delimiter.toUInt8 := by
  have hbehind := behindSkipped?_of_next? hnext
  cases segment with
  | comment => rw [codeBytes_of_some hbehind, if_neg (by simp), Nat.zero_add]
  | literal => rw [codeBytes_of_some hbehind, if_neg (by simp), Nat.zero_add]
  | code c =>
    obtain ⟨rfl, -⟩ := Segment.eq_append_of_next? hnext
    simp only [Segment.text, List.cons_append, List.nil_append, Segment.code.injEq] at hbehind ⊢
    by_cases hc : IsAscii c
    · rw [hc.bytes_cons] at hbehind ⊢
      cases hskipped : behindSkipped? (c.toUInt8 :: bytes rest) with
      | some behind =>
        -- Only a mark can be taken out here: with what stands behind it.
        rw [hskipped] at hbehind
        have hmark : isStringMark c = true := by
          by_contra hmark
          rw [if_neg hmark] at hbehind
          exact absurd hbehind (by simp)
        rw [if_pos hmark] at hbehind
        have hne : c ≠ delimiter := by
          rintro rfl
          rw [isStringMark_of_isInert hdelimiter.2] at hmark
          exact absurd hmark (by decide)
        rw [codeBytes_of_some hskipped, codeBytes_of_some hbehind.symm, if_neg fun h => hne h.1,
          Nat.zero_add]
      | none =>
        have hbyte : c.toUInt8 = delimiter.toUInt8 ↔ c = delimiter :=
          ⟨hc.toUInt8_inj hdelimiter.1, congrArg Char.toUInt8⟩
        rw [codeBytes_of_none hskipped, countUpTo_cons, Text.length_bytes, Text.size_cons,
          hc.utf8Size_eq, Nat.add_comm 1]
        simp only [hbyte]
    · have hne : c ≠ delimiter := by
        rintro rfl
        exact hc hdelimiter.1
      rw [Text.bytes_cons, countUpTo_high hdelimiter.1 (Text.isHigh_of_mem_utf8EncodeChar hc),
        if_neg fun h => hne h.1, Nat.zero_add]

end

section

variable {opener closer : Char} {depth stop : Nat} {passed t inside rest : Text}

/-- `last` is the first place up to which `depth + 1` closers more than openers
    stand among the bytes of code. -/
structure FirstClosed (code : List (Nat × UInt8)) (opener closer : Char) (depth last : Nat) :
    Prop where
  eq : countUpTo code last closer.toUInt8 = countUpTo code last opener.toUInt8 + depth + 1
  lt : ∀ earlier < last,
    countUpTo code earlier closer.toUInt8 < countUpTo code earlier opener.toUInt8 + depth + 1

section

variable {after : Text} {segment : Segment} {deeper last : Nat}

theorem size_lt_of_next? (hnext : Segment.next? t = some (segment, after)) :
    after.size < t.size := by
  obtain ⟨htext, hne⟩ := Segment.eq_append_of_next? hnext
  have hpositive : segment.text.size ≠ 0 := fun hzero => hne (Text.eq_nil_of_size_eq_zero hzero)
  rw [htext, Text.size_append]
  omega

/-- What a first segment closes and opens changes how many closers are needed
    behind it. It must not be the closer that is looked for, which the equation
    of depths excludes. -/
theorem countUpTo_lt_of_next? (hopener : IsDelimiter opener) (hcloser : IsDelimiter closer)
    (hnext : Segment.next? t = some (segment, after))
    (hdepth : (if segment = .code closer then 1 else 0) + deeper =
      (if segment = .code opener then 1 else 0) + depth)
    (h : countUpTo (codeBytes stop (bytes after)) last closer.toUInt8 <
      countUpTo (codeBytes stop (bytes after)) last opener.toUInt8 + deeper + 1) :
    countUpTo (codeBytes stop (bytes t)) last closer.toUInt8 <
      countUpTo (codeBytes stop (bytes t)) last opener.toUInt8 + depth + 1 := by
  by_cases hlast : stop - t.size ≤ last
  · rw [countUpTo_of_next? hopener hnext, countUpTo_of_next? hcloser hnext]
    simp only [hlast, and_true]
    omega
  · rw [countUpTo_eq_zero (by rw [Text.length_bytes]; omega)]
    omega

/-- The first place behind a segment is the first place of the whole, with the
    depth that the segment makes. That the place is not before the segment is
    needed for the count up to it. -/
theorem FirstClosed.of_next? (hopener : IsDelimiter opener) (hcloser : IsDelimiter closer)
    (hnext : Segment.next? t = some (segment, after)) (hlast : stop - t.size ≤ last)
    (hdepth : (if segment = .code closer then 1 else 0) + deeper =
      (if segment = .code opener then 1 else 0) + depth)
    (h : FirstClosed (codeBytes stop (bytes after)) opener closer deeper last) :
    FirstClosed (codeBytes stop (bytes t)) opener closer depth last where
  eq := by
    have heq := h.eq
    rw [countUpTo_of_next? hopener hnext, countUpTo_of_next? hcloser hnext]
    simp only [hlast, and_true]
    omega
  lt earlier hearlier := countUpTo_lt_of_next? hopener hcloser hnext hdepth (h.lt earlier hearlier)

/-- A closer that comes first is the first place at depth zero. Its byte stands
    just before what follows it. -/
theorem FirstClosed.of_closer (hopener : IsDelimiter opener) (hcloser : IsDelimiter closer)
    (hne : opener ≠ closer) (hnext : Segment.next? t = some (.code closer, after))
    (hstop : t.size ≤ stop) :
    FirstClosed (codeBytes stop (bytes t)) opener closer 0 (stop - after.size - 1) := by
  obtain ⟨htext, -⟩ := Segment.eq_append_of_next? hnext
  have hsize : t.size = 1 + after.size := by
    rw [htext, Text.size_append, Segment.text, Text.size_cons, hcloser.1.utf8Size_eq, Text.size_nil]
  have hbehind (b : UInt8) :
    countUpTo (codeBytes stop (bytes after)) (stop - after.size - 1) b = 0 := by
    apply countUpTo_eq_zero
    rw [Text.length_bytes]
    omega
  constructor
  · rw [countUpTo_of_next? hopener hnext, countUpTo_of_next? hcloser hnext, hbehind, hbehind,
      if_pos ⟨rfl, by omega⟩, if_neg fun h => hne (Segment.code.inj h.1).symm]
  · intro earlier hearlier
    rw [countUpTo_eq_zero (by rw [Text.length_bytes]; omega)]
    omega

end

/-- What the search finds is the first place up to which enough closers stand,
    at each depth. The induction is that of the search. -/
theorem firstClosed_of_closing? (hopener : IsDelimiter opener) (hcloser : IsDelimiter closer)
    (hne : opener ≠ closer) (hstop : t.size ≤ stop)
    (h : closing? opener closer depth passed t = some (inside, rest)) :
    rest.size < t.size ∧
      FirstClosed (codeBytes stop (bytes t)) opener closer depth (stop - rest.size - 1) := by
  have step {depth deeper : Nat} {t after : Text} {segment : Segment} (hstop : t.size ≤ stop)
      (hnext : Segment.next? t = some (segment, after))
      (hdepth : (if segment = .code closer then 1 else 0) + deeper =
        (if segment = .code opener then 1 else 0) + depth)
      (ih : after.size ≤ stop → rest.size < after.size ∧
        FirstClosed (codeBytes stop (bytes after)) opener closer deeper (stop - rest.size - 1)) :
      rest.size < t.size ∧
        FirstClosed (codeBytes stop (bytes t)) opener closer depth (stop - rest.size - 1) := by
    have hsize := size_lt_of_next? hnext
    obtain ⟨hlt, hclosed⟩ := ih (by omega)
    exact ⟨by omega, hclosed.of_next? hopener hcloser hnext (by omega) hdepth⟩
  fun_induction closing? opener closer depth passed t with
  | case1 => exact absurd h (by simp)
  | case2 depth passed t after hnext ih =>
    exact step hstop hnext (by simp [hne, Nat.add_comm]) fun hafter => ih hafter h
  | case3 passed t after hnext _ =>
    cases h
    exact ⟨size_lt_of_next? hnext, .of_closer hopener hcloser hne hnext hstop⟩
  | case4 passed t after depth hnext _ ih =>
    exact step hstop hnext (by simp [hne.symm, Nat.add_comm]) fun hafter => ih hafter h
  | case5 depth passed t c after hnext hopener hcloser ih =>
    exact step hstop hnext (by simp [hopener, hcloser]) fun hafter => ih hafter h
  | case6 depth passed t comment after hnext ih =>
    exact step hstop hnext (by simp) fun hafter => ih hafter h
  | case7 depth passed t literal after hnext ih =>
    exact step hstop hnext (by simp) fun hafter => ih hafter h

/-- Where the search finds nothing there is no place up to which enough closers
    stand. -/
theorem countUpTo_lt_of_closing?_eq_none (hopener : IsDelimiter opener)
    (hcloser : IsDelimiter closer) (hne : opener ≠ closer)
    (h : closing? opener closer depth passed t = none) (stop last : Nat) :
    countUpTo (codeBytes stop (bytes t)) last closer.toUInt8 <
      countUpTo (codeBytes stop (bytes t)) last opener.toUInt8 + depth + 1 := by
  fun_induction closing? opener closer depth passed t with
  | case1 depth passed t hnext =>
    have hnil : codeBytes stop (bytes t) = [] := by
      rw [Segment.next?_eq_none_iff.1 hnext, Text.bytes_nil, codeBytes]
    rw [hnil]
    exact Nat.succ_pos _
  | case2 depth passed t after hnext ih =>
    exact countUpTo_lt_of_next? hopener hcloser hnext (by simp [hne, Nat.add_comm]) (ih h)
  | case3 => exact absurd h (by simp)
  | case4 passed t after depth hnext _ ih =>
    exact countUpTo_lt_of_next? hopener hcloser hnext (by simp [hne.symm, Nat.add_comm]) (ih h)
  | case5 depth passed t c after hnext hother hother' ih =>
    exact countUpTo_lt_of_next? hopener hcloser hnext (by simp [hother, hother']) (ih h)
  | case6 depth passed t comment after hnext ih =>
    exact countUpTo_lt_of_next? hopener hcloser hnext (by simp) (ih h)
  | case7 depth passed t literal after hnext ih =>
    exact countUpTo_lt_of_next? hopener hcloser hnext (by simp) (ih h)

end

/-- The places from an opener on up to which as many openers as closers stand
    among the bytes of code. The least of them is where the closer stands. -/
def balancedPlaces (text : Text) (position : Nat) (opener closer : Char) : Set Nat :=
  let code := codeBytes text.size ((bytes text).drop position)
  {last | position ≤ last ∧ countUpTo code last opener.toUInt8 = countUpTo code last closer.toUInt8}

/-- The opener is the first byte of code, so that what stands behind it has to
    close one more than it opens. The text before the opener plays no part. -/
theorem mem_balancedPlaces_iff {head : Text} {position : Nat} {opener closer : Char}
    (hopener : IsDelimiter opener) (hcloser : IsDelimiter closer) (hne : opener ≠ closer)
    (hsize : head.size = position) (rest : Text) (last : Nat) :
    last ∈ balancedPlaces (head ++ opener :: rest) position opener closer ↔ position ≤ last ∧
      countUpTo (codeBytes (head ++ opener :: rest).size (bytes rest)) last closer.toUInt8 =
        countUpTo (codeBytes (head ++ opener :: rest).size (bytes rest)) last opener.toUInt8 +
          1 := by
  have hdrop : (bytes (head ++ opener :: rest)).drop position = bytes (opener :: rest) := by
    rw [Text.bytes_append, ← hsize, ← Text.length_bytes, List.drop_left]
  have hstop : (head ++ opener :: rest).size - Text.size (opener :: rest) = position := by
    rw [← hsize, Text.size_append]
    omega
  have hnext := next?_inert hopener.2 rest
  rw [balancedPlaces, hdrop, Set.mem_ofPred_eq]
  apply and_congr_right
  intro hlast
  rw [countUpTo_of_next? hopener hnext, countUpTo_of_next? hcloser hnext, hstop,
    if_pos ⟨rfl, hlast⟩, if_neg fun h => hne (Segment.code.inj h.1)]
  omega

/-- The closer is found at the first place up to which as many closers as
    openers stand among the bytes of code, and the cursor goes past it. Without
    such a place the cursor goes to the end of the text. The delimiters must be
    bytes that mean nothing else; the text is arbitrary, and the cursor stands
    at an opener. -/
theorem Cursor.findMatching_isLeast {text : Text} {position : Nat} {opener closer : Char}
    (hopener : IsDelimiter opener) (hcloser : IsDelimiter closer) (hne : opener ≠ closer)
    (hposition : (bytes text)[position]? = some opener.toUInt8) :
    let outcome := Cursor.findMatching ⟨text, position⟩ opener closer
    (∀ found, outcome.1 = some found ↔ IsLeast (balancedPlaces text position opener closer) found) ∧
      outcome.2 = ⟨text, (outcome.1.map (· + 1)).getD text.size⟩ := by
  obtain ⟨head, rest, rfl, hsize⟩ := Text.exists_append_of_getElem?_bytes hopener.1 hposition
  have hrest : Text.from? (head ++ opener :: rest) position = some (opener :: rest) :=
    Text.from?_eq_some_iff.2 ⟨head, rfl, hsize⟩
  have hmem := mem_balancedPlaces_iff hopener hcloser hne hsize rest
  have hstop : (head ++ opener :: rest).size = position + 1 + Text.size rest := by
    rw [Text.size_append, Text.size_cons, hsize, hopener.1.utf8Size_eq, Nat.add_assoc]
  unfold Cursor.findMatching Cursor.rest? Cursor.before
  simp only [hrest, if_true]
  generalize (head ++ opener :: rest).size = stop at hmem hstop ⊢
  cases hclosing : closing? opener closer 0 [] rest with
  | none =>
    have hlt := countUpTo_lt_of_closing?_eq_none hopener hcloser hne hclosing stop
    refine ⟨fun found => ⟨fun h => absurd h (by simp), fun h => ?_⟩, ?_⟩
    · have heq := ((hmem found).1 h.1).2
      have hless := hlt found
      omega
    · simp
  | some closed =>
    obtain ⟨inside, after⟩ := closed
    have hfits : Text.size rest ≤ stop := by omega
    obtain ⟨hlt, hclosed⟩ := firstClosed_of_closing? hopener hcloser hne hfits hclosing
    have htext : rest = inside ++ closer :: after := eq_append_of_closing? hclosing
    have hrestSize : Text.size rest = inside.size + 1 + after.size := by
      rw [htext, Text.size_append, Text.size_cons, hcloser.1.utf8Size_eq, Nat.add_assoc]
    have hfound : position + opener.utf8Size + inside.size = stop - after.size - 1 := by
      rw [hopener.1.utf8Size_eq]
      omega
    dsimp only
    rw [hfound]
    have hleast :
      IsLeast (balancedPlaces (head ++ opener :: rest) position opener closer)
        (stop - after.size - 1) := by
      constructor
      · exact (hmem _).2 ⟨by omega, hclosed.eq⟩
      · intro last hlast
        have heq := ((hmem last).1 hlast).2
        by_contra hnot
        have hless := hclosed.lt last (by omega)
        omega
    refine ⟨fun found =>
      ⟨fun h => Option.some.inj h ▸ hleast, fun h => congrArg some (hleast.unique h)⟩, ?_⟩
    have hpast : stop - after.size = stop - after.size - 1 + 1 := by omega
    simpa using hpast

theorem Cursor.findMatching_isLeast_braces :
    let text := "\x7b \"\x7d\" é @\x7d".toList
    IsDelimiter '{' ∧ IsDelimiter '}' ∧ '{' ≠ '}' ∧ (bytes text)[0]? = some '{'.toUInt8 ∧
      Cursor.findMatching ⟨text, 0⟩ '{' '}' = (some 10, ⟨text, 11⟩) ∧
        IsLeast (balancedPlaces text 0 '{' '}') 10 := by
  intro text
  have hfound : Cursor.findMatching ⟨text, 0⟩ '{' '}' = (some 10, ⟨text, 11⟩) := by
    decide +kernel
  have hopener : IsDelimiter '{' := by decide
  have hcloser : IsDelimiter '}' := by decide
  have hposition : (bytes text)[0]? = some '{'.toUInt8 := by decide +kernel
  have hleast := (Cursor.findMatching_isLeast hopener hcloser (by decide) hposition).1 10
  exact ⟨hopener, hcloser, by decide, hposition, hfound, hleast.1 (by rw [hfound])⟩

end Lexical

end EntitySplit
