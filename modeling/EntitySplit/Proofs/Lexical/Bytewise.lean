import EntitySplit.Lexical.Segment
import EntitySplit.Proofs.Lexical.CodeBytes
import EntitySplit.Proofs.Lexical.Grammar
import EntitySplit.Text.Span

namespace EntitySplit

namespace Text

/-- The position of the first `mark`, counted in bytes from the beginning of
    the text. -/
def find? (mark : Text) : Text → Option Nat
  | [] => none
  | c :: t => if mark <+: c :: t then some 0 else (find? mark t).map (c.utf8Size + ·)

/-- What stands before and behind the first mark make up the text; without a
    mark nothing stands behind it. -/
theorem size_through (mark t : Text) :
    ((find? mark t).map (· + mark.size)).getD t.size + (through mark t).2.size = t.size := by
  induction t with
  | nil => rfl
  | cons c t ih =>
    rw [find?, through]
    by_cases hmark : mark <+: c :: t
    · obtain ⟨rest, hrest⟩ := hmark
      rw [← hrest, after?_append, if_pos (List.prefix_append mark rest)]
      simp only [Option.map_some, Option.getD_some, size_append, Nat.zero_add]
    · rw [after?_eq_none_iff.2 hmark, if_neg hmark]
      dsimp only
      cases hfind : find? mark t with
      | none =>
        rw [hfind] at ih
        simp only [Option.map_none, Option.getD_none, size_cons] at ih ⊢
        omega
      | some distance =>
        rw [hfind] at ih
        simp only [Option.map_some, Option.getD_some, size_cons] at ih ⊢
        omega

end Text

namespace Lexical

namespace Bytewise

open Text (bytes IsAscii IsHigh)

def peek (text : Text) (position : Nat) : Option UInt8 :=
  (bytes text)[position]?

/-- Goes behind the first `mark` from a position on, or to the end of the text.
    The text is cut at the position, which may be refused. -/
def behindMark? (text mark : Text) (position : Nat) : Option Nat :=
  (text.from? position).map fun rest =>
    match Text.find? mark rest with
    | some distance => position + distance + mark.size
    | none => text.size

/-- Whether a comment begins at a position. Two bytes are looked at, neither of
    which needs to be there. -/
def BeginsComment (text : Text) (position : Nat) : Prop :=
  peek text position = some '/'.toUInt8 ∧
    (peek text (position + 1) = some '/'.toUInt8 ∨ peek text (position + 1) = some '*'.toUInt8)
deriving Decidable

/-- Goes behind the comment at a position. The search for the end of a line
    comment begins with its slashes, that for a block comment behind its first
    two characters. -/
def commentEnd? (text : Text) (position : Nat) : Option Nat :=
  if peek text (position + 1) = some '/'.toUInt8 then behindMark? text ['\n'] position
  else behindMark? text ['*', '/'] (position + 2)

/-- Goes behind a literal from inside it. What a backslash or a first quote
    takes with it may reach beyond the end of the text, or into a character, so
    that only single bytes are looked at. -/
def literalEnd (text : Text) (quote : UInt8) (verbatim : Bool) (position : Nat) : Nat :=
  match _hpeek : peek text position with
  | none => min position text.size
  | some b =>
    if b = '\\'.toUInt8 ∧ verbatim = false then
      literalEnd text quote verbatim (position + 2)
    else if b = quote ∧ verbatim = true ∧ peek text (position + 1) = some quote then
      literalEnd text quote verbatim (position + 2)
    else if b = quote then
      position + 1
    else if b = '\n'.toUInt8 ∧ verbatim = false then
      position
    else
      literalEnd text quote verbatim (position + 1)
termination_by (bytes text).length - position
decreasing_by
  all_goals
    have := (List.getElem?_eq_some_iff.1 _hpeek).1
    omega

/-- Goes behind the string whose first quote is at a position. The quotes of a
    raw string are cut out, to look for them again. -/
def stringEnd? (text : Text) (verbatim : Bool) (position : Nat) : Option Nat :=
  if text.size < position then
    none
  else
    let quotes := (((bytes text).drop position).takeWhile (· = '"'.toUInt8)).length
    if 3 ≤ quotes ∧ verbatim = false then
      (Span.slice? ⟨position, position + quotes⟩ text).bind fun fence =>
        behindMark? text fence (position + quotes)
    else
      some (literalEnd text '"'.toUInt8 verbatim (position + 1))

/-- Goes behind the comment or literal that begins at a position, if one does.
    `some none` tells that code stands there, and none that a cut was refused. -/
def skippedEnd? (text : Text) (position : Nat) : Option (Option Nat) :=
  match peek text position with
  | none => some none
  | some b =>
    if BeginsComment text position then
      (commentEnd? text position).map some
    else if b = '"'.toUInt8 then
      (stringEnd? text false position).map some
    else if b = '\''.toUInt8 then
      some (some (literalEnd text '\''.toUInt8 false (position + 1)))
    else if isMarkByte b then
      let marks := ((bytes text).drop position).takeWhile isMarkByte
      if peek text (position + marks.length) = some '"'.toUInt8 then
        (stringEnd? text (marks.contains '@'.toUInt8) (position + marks.length)).map some
      else
        some none
    else
      some none

section

variable {text rest u : Text} {position : Nat}

/-- What stands behind a place makes up the text with the bytes before it, so a
    place is never beyond the end. -/
theorem size_of_from? (hrest : text.from? position = some rest) :
    position + rest.size = text.size := by
  obtain ⟨head, rfl, hsize⟩ := Text.from?_eq_some_iff.1 hrest
  rw [Text.size_append, hsize]

theorem drop_of_from? (hrest : text.from? position = some rest) :
    (bytes text).drop position = bytes rest := by
  obtain ⟨head, rfl, hsize⟩ := Text.from?_eq_some_iff.1 hrest
  rw [Text.bytes_append, ← hsize, ← Text.length_bytes, List.drop_left]

theorem peek_of_from? (hrest : text.from? position = some rest) (distance : Nat) :
    peek text (position + distance) = (bytes rest)[distance]? := by
  rw [← drop_of_from? hrest, List.getElem?_drop]
  rfl

/-- Behind what stands at a place is another place, at which the rest of the
    text stands. -/
theorem from?_append {lead : Text} (hrest : text.from? position = some (lead ++ rest)) :
    text.from? (position + lead.size) = some rest := by
  obtain ⟨head, htext, hsize⟩ := Text.from?_eq_some_iff.1 hrest
  refine Text.from?_eq_some_iff.2 ⟨head ++ lead, ?_, ?_⟩
  · rw [htext, List.append_assoc]
  · rw [Text.size_append, hsize]

theorem from?_tail {c : Char} (hc : IsAscii c) (hrest : text.from? position = some (c :: rest)) :
    text.from? (position + 1) = some rest := by
  have h : text.from? (position + Text.size [c]) = some rest := from?_append hrest
  rwa [Text.size_cons, hc.utf8Size_eq] at h

/-- A byte of ASCII is seen where its character stands, and nowhere else: no
    other character has that byte among its own. The position must be a place
    between characters. -/
theorem peek_eq_ascii_iff {c : Char} (hc : IsAscii c) (hrest : text.from? position = some rest) :
    peek text position = some c.toUInt8 ↔ rest.head? = some c := by
  have hpeek : peek text position = (bytes rest)[0]? := peek_of_from? hrest 0
  rw [hpeek]
  constructor
  · intro h
    obtain ⟨head, behind, rfl, hsize⟩ := Text.exists_append_of_getElem?_bytes hc h
    rw [Text.eq_nil_of_size_eq_zero hsize]
    rfl
  · intro h
    obtain ⟨behind, rfl⟩ := List.head?_eq_some_iff.1 h
    rw [hc.bytes_cons, List.getElem?_cons_zero]

/-- What stands at a place can be cut out by its size. -/
theorem slice?_of_from? {lead : Text} (hrest : text.from? position = some (lead ++ rest)) :
    Span.slice? ⟨position, position + lead.size⟩ text = some lead := by
  obtain ⟨head, htext, hsize⟩ := Text.from?_eq_some_iff.1 hrest
  exact Span.slice?_eq_some_iff.2
    ⟨head, rest, by rw [htext, List.append_assoc], hsize, by rw [hsize]⟩

/-- From a place between two characters the search for a mark is not refused,
    and it ends where the mark does by characters. -/
theorem behindMark?_of_from? (hrest : text.from? position = some rest) (mark : Text) :
    behindMark? text mark position = some (text.size - (Text.through mark rest).2.size) := by
  have hsize := size_of_from? hrest
  have hthrough := Text.size_through mark rest
  rw [behindMark?, hrest, Option.map_some, Option.some.injEq]
  cases hfind : Text.find? mark rest with
  | none =>
    rw [hfind] at hthrough
    simp only [Option.map_none, Option.getD_none] at hthrough ⊢
    omega
  | some distance =>
    rw [hfind] at hthrough
    simp only [Option.map_some, Option.getD_some] at hthrough ⊢
    omega

theorem peek_eq_some_iff {b : UInt8} :
    peek text position = some b ↔
      (bytes text).drop position = b :: (bytes text).drop (position + 1) := by
  rw [peek, ← List.head?_drop, ← List.tail_drop]
  constructor
  · intro h
    obtain ⟨behind, hbehind⟩ := List.head?_eq_some_iff.1 h
    rw [hbehind, List.tail_cons]
  · intro h
    rw [h, List.head?_cons]

theorem lt_size_of_peek {b : UInt8} (h : peek text position = some b) : position < text.size := by
  rw [← Text.length_bytes]
  exact (List.getElem?_eq_some_iff.1 h).1

theorem drop_of_peek_none (h : peek text position = none) :
    (bytes text).drop position = [] ∧ text.size ≤ position := by
  have hle := List.getElem?_eq_none_iff.1 h
  exact ⟨List.drop_eq_nil_iff.2 hle, Text.length_bytes text ▸ hle⟩

theorem size_sub_length_drop (hle : position ≤ text.size) :
    text.size - ((bytes text).drop position).length = position := by
  rw [List.length_drop, Text.length_bytes]
  omega

/-- Behind a backslash a single byte is passed, whatever it is. -/
theorem behindQuoted_escaped (quote : UInt8) (s : Bytes) :
    behindQuoted quote true s = behindQuoted quote false s.tail := by
  cases s <;> rfl

/-- The position behind a literal is where the bytes behind it begin. Here
    positions beyond the end come back to the end. -/
theorem literalEnd_ordinary (quote : UInt8) (position : Nat) :
    literalEnd text quote false position =
      text.size - (behindQuoted quote false ((bytes text).drop position)).length := by
  fun_induction literalEnd text quote false position with
  | case1 position hpeek =>
    obtain ⟨hdrop, hle⟩ := drop_of_peek_none hpeek
    rw [hdrop, behindQuoted, List.length_nil, Nat.sub_zero, Nat.min_eq_right hle]
  | case2 position b hpeek hescape ih =>
    rw [ih, peek_eq_some_iff.1 hpeek, behindQuoted, if_pos hescape.1, behindQuoted_escaped,
      List.tail_drop]
  | case3 position b hpeek hescape htwice ih => exact absurd htwice.2.1 (by decide)
  | case4 position hpeek hescape htwice =>
    have hescape : quote ≠ '\\'.toUInt8 := fun h => hescape ⟨h, rfl⟩
    rw [peek_eq_some_iff.1 hpeek, behindQuoted, if_neg hescape, if_pos rfl,
      size_sub_length_drop (lt_size_of_peek hpeek)]
  | case5 position b hpeek hescape htwice hquote hfeed =>
    have hescape : b ≠ '\\'.toUInt8 := fun h => hescape ⟨h, rfl⟩
    rw [peek_eq_some_iff.1 hpeek, behindQuoted, if_neg hescape, if_neg hquote, if_pos hfeed.1,
      ← peek_eq_some_iff.1 hpeek, size_sub_length_drop (Nat.le_of_lt (lt_size_of_peek hpeek))]
  | case6 position b hpeek hescape htwice hquote hfeed ih =>
    have hescape : b ≠ '\\'.toUInt8 := fun h => hescape ⟨h, rfl⟩
    have hfeed : b ≠ '\n'.toUInt8 := fun h => hfeed ⟨h, rfl⟩
    rw [ih, peek_eq_some_iff.1 hpeek, behindQuoted, if_neg hescape, if_neg hquote, if_neg hfeed]

/-- The position behind a verbatim string is where the bytes behind it begin,
    by the same argument. -/
theorem literalEnd_verbatim (position : Nat) :
    literalEnd text '"'.toUInt8 true position =
      text.size - (behindVerbatim false ((bytes text).drop position)).length := by
  fun_induction literalEnd text '"'.toUInt8 true position with
  | case1 position hpeek =>
    obtain ⟨hdrop, hle⟩ := drop_of_peek_none hpeek
    rw [hdrop, behindVerbatim, List.length_nil, Nat.sub_zero, Nat.min_eq_right hle]
  | case2 position b hpeek hescape ih => exact absurd hescape.2 (by decide)
  | case3 position b hpeek hescape htwice ih =>
    rw [ih, peek_eq_some_iff.1 hpeek, peek_eq_some_iff.1 htwice.2.2, behindVerbatim,
      decide_eq_true htwice.1, behindVerbatim, if_pos rfl]
  | case4 position hpeek hescape htwice =>
    have hnext : peek text (position + 1) ≠ some '"'.toUInt8 := fun h => htwice ⟨rfl, rfl, h⟩
    have hquoted :
      behindVerbatim true ((bytes text).drop (position + 1)) =
        (bytes text).drop (position + 1) := by
      cases hpeek : peek text (position + 1) with
      | none => rw [(drop_of_peek_none hpeek).1, behindVerbatim]
      | some b =>
        have hne : b ≠ '"'.toUInt8 := fun h => hnext (h ▸ hpeek)
        rw [peek_eq_some_iff.1 hpeek, behindVerbatim, if_neg hne]
    rw [peek_eq_some_iff.1 hpeek, behindVerbatim, decide_eq_true rfl, hquoted,
      size_sub_length_drop (lt_size_of_peek hpeek)]
  | case5 position b hpeek hescape htwice hquote hfeed => exact absurd hfeed.2 (by decide)
  | case6 position b hpeek hescape htwice hquote hfeed ih =>
    rw [ih, peek_eq_some_iff.1 hpeek, behindVerbatim, decide_eq_false hquote]

/-- Two bytes tell whether a comment begins, as its marks are ASCII. -/
theorem beginsComment_iff (hrest : text.from? position = some rest) :
    BeginsComment text position ↔ (comment? rest).isSome := by
  rw [BeginsComment, peek_eq_ascii_iff (by decide) hrest]
  cases rest with
  | nil => simp [comment?]
  | cons c rest =>
    rw [List.head?_cons, Option.some.injEq, ← Option.ne_none_iff_isSome, Ne, comment?_eq_none_iff]
    by_cases hc : c = '/'
    · subst hc
      have hinside := from?_tail (by decide) hrest
      rw [peek_eq_ascii_iff (by decide) hinside, peek_eq_ascii_iff (by decide) hinside]
      by_cases hline : rest.head? = some '/' <;> simp [hline]
    · simp [hc]

/-- From a place between two characters a comment is passed byte by byte as it
    is read by characters. -/
theorem commentEnd?_of_comment? {comment : Text} (hrest : text.from? position = some rest)
    (h : comment? rest = some (comment, u)) :
    commentEnd? text position = some (text.size - u.size) := by
  unfold comment? at h
  split at h
  · next t =>
    cases h
    have hslash := (peek_eq_ascii_iff (c := '/') (by decide) (from?_tail (by decide) hrest)).2 rfl
    rw [commentEnd?, if_pos hslash, behindMark?_of_from? hrest]
    rfl
  · next t =>
    cases h
    have hinside := from?_tail (by decide) hrest
    have hslash : peek text (position + 1) ≠ some '/'.toUInt8 := by
      rw [Ne, peek_eq_ascii_iff (by decide) hinside, List.head?_cons]
      decide
    rw [commentEnd?, if_neg hslash, behindMark?_of_from? (from?_tail (by decide) hinside)]
  · exact absurd h (by simp)

/-- A string of either kind is passed byte by byte as it is read by characters.
    The position is that of its first quote. -/
theorem stringEnd?_of_from? (hrest : text.from? position = some ('"' :: rest)) (verbatim : Bool) :
    stringEnd? text verbatim position = some (text.size - (stringBody verbatim rest).2.size) := by
  have hsize := size_of_from? hrest
  have hinside := from?_tail (by decide) hrest
  have hquotes : (((bytes text).drop position).takeWhile (· = '"'.toUInt8)).length =
      (rest.takeWhile (· = '"')).length + 1 := by
    rw [drop_of_from? hrest, takeWhile_quotes, length_bytes_quotes,
      List.takeWhile_cons_of_pos (by decide), List.length_cons]
  rw [stringEnd?, if_neg (by omega)]
  dsimp only
  rw [hquotes, stringBody]
  cases verbatim with
  | true =>
    rw [if_neg (by simp), if_pos rfl, literalEnd_verbatim, drop_of_from? hinside,
      behindVerbatim_bytes, Text.length_bytes]
  | false =>
    simp only [and_true, Bool.false_eq_true, if_false]
    by_cases hfew : (rest.takeWhile (· = '"')).length < 2
    · rw [if_neg (by omega), if_pos hfew, literalEnd_ordinary, drop_of_from? hinside,
        behindQuoted_bytes (by decide), Text.length_bytes]
    · have hfence :
        text.from? position =
          some (('"' :: rest.takeWhile (· = '"')) ++ rest.dropWhile (· = '"')) := by
        rw [List.cons_append, List.takeWhile_append_dropWhile, hrest]
      have hfenceSize :
        Text.size ('"' :: rest.takeWhile (· = '"')) = (rest.takeWhile (· = '"')).length + 1 := by
        rw [Text.size_cons, (Text.tests_eq (by decide)).size_takeWhile,
          IsAscii.utf8Size_eq (by decide), Nat.add_comm]
      rw [if_pos (by omega), if_neg hfew, ← hfenceSize, slice?_of_from? hfence, Option.bind_some,
        behindMark?_of_from? (from?_append hfence)]

/-- Where a comment is read, it is what is passed, before any literal is looked
    for. -/
theorem skippedEnd?_of_comment? {comment : Text} (hrest : text.from? position = some rest)
    (h : comment? rest = some (comment, u)) :
    skippedEnd? text position = some (some (text.size - u.size)) := by
  have hbegins : BeginsComment text position := (beginsComment_iff hrest).2 (by rw [h]; rfl)
  rw [skippedEnd?, hbegins.1]
  dsimp only
  rw [if_pos hbegins, commentEnd?_of_comment? hrest h, Option.map_some]

theorem not_beginsComment {b : UInt8} (hpeek : peek text position = some b)
    (hne : b ≠ '/'.toUInt8) :
    ¬BeginsComment text position :=
  fun h => hne (Option.some.inj (hpeek.symm.trans h.1))

/-- At a byte of a character that is none of ASCII there is code. -/
theorem skippedEnd?_high {b : UInt8} (hb : IsHigh b) (hpeek : peek text position = some b) :
    skippedEnd? text position = some none := by
  have hmark : ¬isMarkByte b = true := by simp [tests_isMarkByte.high hb]
  rw [skippedEnd?, hpeek]
  dsimp only
  rw [if_neg (not_beginsComment hpeek (hb.ne_toUInt8 (by decide))),
    if_neg (hb.ne_toUInt8 (by decide)), if_neg (hb.ne_toUInt8 (by decide)), if_neg hmark]

section

variable {c : Char}

theorem skippedEnd?_of_mark (hrest : text.from? position = some (c :: rest))
    (hc : isStringMark c = true) :
    let marks := (c :: rest).takeWhile isStringMark
    let behind := (c :: rest).dropWhile isStringMark
    skippedEnd? text position =
      if behind.head? = some '"'
        then some (some (text.size - (stringBody (marks.contains '@') behind.tail).2.size))
      else some none := by
  intro marks behind
  have hascii := tests_isMarkByte.isAscii hc
  have hmark : isMarkByte c.toUInt8 = true := (tests_isMarkByte.ascii hascii).trans hc
  have hne {d : Char} (hd : IsAscii d) (hnot : isStringMark d = false) : c.toUInt8 ≠ d.toUInt8 := by
    apply hascii.toUInt8_ne hd
    rintro rfl
    rw [hc] at hnot
    exact absurd hnot (by decide)
  have hpeek : peek text position = some c.toUInt8 := (peek_eq_ascii_iff hascii hrest).2 rfl
  have hmarks : ((bytes text).drop position).takeWhile isMarkByte = bytes marks := by
    rw [drop_of_from? hrest, (tests_isMarkByte.run_bytes _).1]
  have hat : (bytes marks).contains '@'.toUInt8 = marks.contains '@' := by
    rw [Bool.eq_iff_iff, List.contains_iff_mem, List.contains_iff_mem,
      Text.mem_bytes_iff (by decide)]
  have hbehind : text.from? (position + Text.size marks) = some behind := by
    apply from?_append
    rw [hrest, List.takeWhile_append_dropWhile]
  have hquote := peek_eq_ascii_iff (c := '"') (by decide) hbehind
  rw [skippedEnd?, hpeek]
  dsimp only
  rw [if_neg (not_beginsComment hpeek (hne (by decide) (by decide))),
    if_neg (hne (by decide) (by decide)), if_neg (hne (by decide) (by decide)), if_pos hmark,
    hmarks, Text.length_bytes, hat]
  by_cases hhead : behind.head? = some '"'
  · rw [if_pos (hquote.2 hhead), if_pos hhead]
    obtain ⟨v, hv⟩ := List.head?_eq_some_iff.1 hhead
    rw [hv] at hbehind ⊢
    rw [stringEnd?_of_from? hbehind, Option.map_some, List.tail_cons]
  · rw [if_neg fun h => hhead (hquote.1 h), if_neg hhead]

/-- Where a literal is read, it is what is passed, with the marks in front of
    it. -/
theorem skippedEnd?_of_literal? {literal : Text} (hrest : text.from? position = some rest)
    (h : literal? rest = some (literal, u)) :
    skippedEnd? text position = some (some (text.size - u.size)) := by
  have parts := List.takeWhile_append_dropWhile (p := isStringMark) (l := rest)
  unfold literal? at h
  dsimp only at h
  split at h
  · next v hdrop =>
    cases h
    cases rest with
    | nil => exact absurd hdrop (by simp)
    | cons c rest =>
      by_cases hc : isStringMark c = true
      · rw [skippedEnd?_of_mark hrest hc, hdrop, List.head?_cons, if_pos rfl, List.tail_cons]
      · rw [List.dropWhile_cons_of_neg hc] at hdrop
        rw [List.takeWhile_cons_of_neg hc, skippedEnd?]
        obtain ⟨rfl, rfl⟩ := List.cons.inj hdrop
        have hpeek := (peek_eq_ascii_iff (c := '"') (by decide) hrest).2 rfl
        rw [hpeek]
        dsimp only
        rw [if_neg (not_beginsComment hpeek (by decide)), if_pos rfl, stringEnd?_of_from? hrest]
        rfl
  · next v hdrop =>
    split at h
    · next hmarks =>
      cases h
      rw [List.isEmpty_iff.1 hmarks, List.nil_append, hdrop] at parts
      rw [← parts] at hrest
      have hpeek := (peek_eq_ascii_iff (c := '\'') (by decide) hrest).2 rfl
      rw [skippedEnd?, hpeek]
      dsimp only
      rw [if_neg (not_beginsComment hpeek (by decide)), if_neg (by decide), if_pos rfl,
        literalEnd_ordinary, drop_of_from? (from?_tail (by decide) hrest),
        behindQuoted_bytes (by decide), Text.length_bytes]
    · exact absurd h (by simp)
  · exact absurd h (by simp)

/-- Where neither a comment nor a literal is read, nothing is passed. Marks
    without a string behind them are such a place. -/
theorem skippedEnd?_of_code (hrest : text.from? position = some (c :: rest))
    (hcomment : comment? (c :: rest) = none)
    (hliteral : literal? (c :: rest) = none) : skippedEnd? text position = some none := by
  obtain ⟨⟨hquote, happostrophe⟩, hmark⟩ := literal?_eq_none_iff.1 hliteral
  by_cases hc : isStringMark c = true
  · rw [skippedEnd?_of_mark hrest hc, List.dropWhile_cons_of_pos hc, if_neg (hmark hc)]
  · by_cases hascii : IsAscii c
    · have hpeek : peek text position = some c.toUInt8 := (peek_eq_ascii_iff hascii hrest).2 rfl
      have hmark : ¬isMarkByte c.toUInt8 = true := by rwa [tests_isMarkByte.ascii hascii]
      have hno : ¬BeginsComment text position := by
        rw [beginsComment_iff hrest, hcomment]
        decide
      rw [skippedEnd?, hpeek]
      dsimp only
      rw [if_neg hno, if_neg (hascii.toUInt8_ne (by decide) hquote),
        if_neg (hascii.toUInt8_ne (by decide) happostrophe), if_neg hmark]
    · obtain ⟨b, bs, hbytes, -⟩ := Text.exists_cons_utf8EncodeChar c
      have hpeek : peek text position = (bytes (c :: rest))[0]? := peek_of_from? hrest 0
      rw [Text.bytes_cons, hbytes, List.cons_append, List.getElem?_cons_zero] at hpeek
      exact skippedEnd?_high (Text.isHigh_of_mem_utf8EncodeChar hascii b (by simp [hbytes])) hpeek

/-- Between two characters nothing is refused, and the bytes tell what the
    characters tell. It is the case analysis that the operations of a cursor
    rest on. -/
theorem skippedEnd?_of_next? {segment : Segment} (hrest : text.from? position = some rest)
    (hnext : Segment.next? rest = some (segment, u)) :
    skippedEnd? text position =
      match segment with
      | .code _ => some none
      | _ => some (some (text.size - u.size)) := by
  cases rest with
  | nil => exact absurd hnext (by simp [Segment.next?])
  | cons c rest =>
    rw [Segment.next?] at hnext
    split at hnext
    · next hcomment =>
      cases hnext
      exact skippedEnd?_of_comment? hrest hcomment
    · next hcomment =>
      split at hnext
      · next hliteral =>
        cases hnext
        exact skippedEnd?_of_literal? hrest hliteral
      · next hliteral =>
        cases hnext
        exact skippedEnd?_of_code hrest hcomment hliteral

end

end

end Bytewise

end Lexical

end EntitySplit
