import EntitySplit.Lexical.Cursor
import EntitySplit.Proofs.Lexical.Bytewise
import EntitySplit.Proofs.Lexical.Closer

namespace EntitySplit

namespace Lexical

namespace Bytewise

open Text (bytes IsAscii IsHigh)

def isSpaceByte (b : UInt8) : Bool :=
  [' ', '\t', '\n', '\x0c', '\r'].any fun c => b = c.toUInt8

/-- Goes past white space and comments. A comment that has not been advanced
    over would be refused, as the loop would not end. -/
def triviaEnd? (text : Text) (position : Nat) : Option Nat :=
  match _hpeek : peek text position with
  | none => some position
  | some b =>
    if isSpaceByte b then
      triviaEnd? text (position + 1)
    else if BeginsComment text position then
      match commentEnd? text position with
      | none => none
      | some next => if position < next then triviaEnd? text next else none
    else
      some position
termination_by text.size - position
decreasing_by
  all_goals
    have := lt_size_of_peek _hpeek
    omega

/-- The closer that `depth + 1` open delimiters need from a position on, and
    where the search ends. Comments and literals are passed whole. -/
def closerFrom? (text : Text) (opener closer : UInt8) (depth position : Nat) :
    Option (Option Nat × Nat) :=
  match _hpeek : peek text position with
  | none => some (none, position)
  | some b =>
    match skippedEnd? text position with
    | none => none
    | some (some next) =>
      if position < next then closerFrom? text opener closer depth next else none
    | some none =>
      if b = opener then
        closerFrom? text opener closer (depth + 1) (position + 1)
      else if b = closer then
        match depth with
        | 0 => some (some position, position + 1)
        | depth + 1 => closerFrom? text opener closer depth (position + 1)
      else
        closerFrom? text opener closer depth (position + 1)
termination_by text.size - position
decreasing_by
  all_goals
    have := lt_size_of_peek _hpeek
    omega

/-- The braces of code from a position on, the opening ones less the closing
    ones, added to `balance`. Bytes are looked at one by one, comments and
    literals passed whole. -/
def balanceFrom? (text : Text) (balance : Int) (position : Nat) : Option Int :=
  match _hpeek : peek text position with
  | none => some balance
  | some b =>
    match skippedEnd? text position with
    | none => none
    | some (some next) => if position < next then balanceFrom? text balance next else none
    | some none =>
      if b = '{'.toUInt8 then balanceFrom? text (balance + 1) (position + 1)
      else if b = '}'.toUInt8 then balanceFrom? text (balance - 1) (position + 1)
      else balanceFrom? text balance (position + 1)
termination_by text.size - position
decreasing_by
  all_goals
    have := lt_size_of_peek _hpeek
    omega

section

variable {text rest u : Text} {position next : Nat} {b opener closer : UInt8} {c : Char}

theorem triviaEnd?_of_none (hpeek : peek text position = none) :
    triviaEnd? text position = some position := by
  rw [triviaEnd?]
  split
  · rfl
  · next hsome => exact absurd (hpeek.symm.trans hsome) (by simp)

/-- One round of the loop past white space and comments, where there is a byte.
    The equations of the three loops stand for their definitions below. -/
theorem triviaEnd?_of_peek (hpeek : peek text position = some b) : triviaEnd? text position =
    if isSpaceByte b then
      triviaEnd? text (position + 1)
    else if BeginsComment text position then
      match commentEnd? text position with
      | none => none
      | some next => if position < next then triviaEnd? text next else none
    else
      some position := by
  rw [triviaEnd?]
  split
  · next hnone => exact absurd (hpeek.symm.trans hnone) (by simp)
  · next hsome =>
    rw [hpeek, Option.some.injEq] at hsome
    rw [hsome]

theorem closerFrom?_of_none (depth : Nat) (hpeek : peek text position = none) :
    closerFrom? text opener closer depth position = some (none, position) := by
  rw [closerFrom?.eq_def]
  split
  · rfl
  · next hsome => exact absurd (hpeek.symm.trans hsome) (by simp)

/-- A comment or a literal is passed in the search for a closer, if this
    advances. -/
theorem closerFrom?_of_skipped (depth : Nat) (hpeek : peek text position = some b)
    (hskipped : skippedEnd? text position = some (some next)) (hlt : position < next) :
    closerFrom? text opener closer depth position = closerFrom? text opener closer depth next := by
  rw [closerFrom?.eq_def]
  split
  · next hnone => exact absurd (hpeek.symm.trans hnone) (by simp)
  · rw [hskipped]
    exact if_pos hlt

/-- A byte of code opens, closes or goes by; the closer that is looked for ends
    the search behind it. -/
theorem closerFrom?_of_code (depth : Nat) (hpeek : peek text position = some b)
    (hskipped : skippedEnd? text position = some none) :
    closerFrom? text opener closer depth position =
      if b = opener then closerFrom? text opener closer (depth + 1) (position + 1)
      else if b = closer then
        match depth with
        | 0 => some (some position, position + 1)
        | depth + 1 => closerFrom? text opener closer depth (position + 1)
      else closerFrom? text opener closer depth (position + 1) := by
  rw [closerFrom?.eq_def]
  split
  · next hnone => exact absurd (hpeek.symm.trans hnone) (by simp)
  · next hsome =>
    rw [hpeek, Option.some.injEq] at hsome
    rw [hskipped, hsome]

theorem balanceFrom?_of_none (balance : Int) (hpeek : peek text position = none) :
    balanceFrom? text balance position = some balance := by
  rw [balanceFrom?]
  split
  · rfl
  · next hsome => exact absurd (hpeek.symm.trans hsome) (by simp)

/-- A comment or a literal is passed in the count of braces, if this advances. -/
theorem balanceFrom?_of_skipped (balance : Int) (hpeek : peek text position = some b)
    (hskipped : skippedEnd? text position = some (some next)) (hlt : position < next) :
    balanceFrom? text balance position = balanceFrom? text balance next := by
  rw [balanceFrom?]
  split
  · next hnone => exact absurd (hpeek.symm.trans hnone) (by simp)
  · rw [hskipped]
    exact if_pos hlt

/-- A byte of code adds one, takes one off or goes by. -/
theorem balanceFrom?_of_code (balance : Int) (hpeek : peek text position = some b)
    (hskipped : skippedEnd? text position = some none) :
    balanceFrom? text balance position =
      if b = '{'.toUInt8 then balanceFrom? text (balance + 1) (position + 1)
      else if b = '}'.toUInt8 then balanceFrom? text (balance - 1) (position + 1)
      else balanceFrom? text balance (position + 1) := by
  rw [balanceFrom?]
  split
  · next hnone => exact absurd (hpeek.symm.trans hnone) (by simp)
  · next hsome =>
    rw [hpeek, Option.some.injEq] at hsome
    rw [hskipped, hsome]

theorem peek_of_from?_nil (hrest : text.from? position = some []) : peek text position = none := by
  have hpeek : peek text position = (bytes [])[0]? := peek_of_from? hrest 0
  exact hpeek

/-- The first byte of a character is none of another character of ASCII. So a
    comparison with a byte of ASCII is one with its character. -/
theorem exists_peek_of_from? (hrest : text.from? position = some (c :: rest)) :
    ∃ b, peek text position = some b ∧ (IsAscii c → b = c.toUInt8) ∧ (¬IsAscii c → IsHigh b) := by
  by_cases hc : IsAscii c
  · exact ⟨c.toUInt8, (peek_eq_ascii_iff hc hrest).2 rfl, fun _ => rfl, fun hnot => absurd hc hnot⟩
  · have hpeek : peek text position = (bytes (c :: rest))[0]? := peek_of_from? hrest 0
    obtain ⟨b, bs, hbytes, -⟩ := Text.exists_cons_utf8EncodeChar c
    rw [Text.bytes_cons, hbytes, List.cons_append, List.getElem?_cons_zero] at hpeek
    exact ⟨b, hpeek, fun h => absurd h hc,
      fun _ => Text.isHigh_of_mem_utf8EncodeChar hc b (by simp [hbytes])⟩

section

variable {α : Type} {f : Nat → α}

/-- What goes by one byte after another can be passed at once: a function that
    is the same behind each byte above ASCII is the same behind a run of them. -/
theorem iterate_of_drop_eq {high s : Bytes}
    (hstep : ∀ position b, peek text position = some b → IsHigh b → f position = f (position + 1))
    (hhigh : ∀ b ∈ high, IsHigh b) (hdrop : (bytes text).drop position = high ++ s) :
    f position = f (position + high.length) := by
  induction high generalizing position with
  | nil => rfl
  | cons b high ih =>
    have hpeek : peek text position = some b := by
      rw [peek, ← List.head?_drop, hdrop]
      rfl
    have hnext : (bytes text).drop (position + 1) = high ++ s := by
      rw [← List.tail_drop, hdrop]
      rfl
    rw [hstep position b hpeek (hhigh b List.mem_cons_self),
      ih (fun x hx => hhigh x (List.mem_cons_of_mem b hx)) hnext, List.length_cons, Nat.add_assoc,
      Nat.add_comm 1]

/-- The bytes of a character that is none of ASCII go by one after another, so
    that a loop over bytes makes one step of a character. -/
theorem iterate_of_from?
    (hstep : ∀ position b, peek text position = some b → IsHigh b → f position = f (position + 1))
    (hc : ¬IsAscii c) (hrest : text.from? position = some (c :: rest)) :
    f position = f (position + c.utf8Size) := by
  have hdrop := drop_of_from? hrest
  rw [Text.bytes_cons] at hdrop
  rw [iterate_of_drop_eq hstep (Text.isHigh_of_mem_utf8EncodeChar hc) hdrop,
    String.length_utf8EncodeChar]

end

theorem from?_cons (hrest : text.from? position = some (c :: rest)) :
    text.from? (position + c.utf8Size) = some rest :=
  from?_append (show text.from? position = some ([c] ++ rest) from hrest)

/-- Behind what stands at a place, the position is the size of the text less
    that of the rest, and a place again. -/
theorem from?_behind {lead : Text} (hrest : text.from? position = some (lead ++ rest)) :
    position + lead.size = text.size - rest.size ∧
      text.from? (text.size - rest.size) = some rest := by
  have hbehind := from?_append hrest
  have hsize := size_of_from? hbehind
  have hposition : position + lead.size = text.size - rest.size := by omega
  exact ⟨hposition, hposition ▸ hbehind⟩

theorem isAscii_of_mem_spaces {c : Char} (hc : c ∈ [' ', '\t', '\n', '\x0c', '\r']) : IsAscii c :=
  of_decide_eq_true
    (List.all_eq_true.1 (by rfl : [' ', '\t', '\n', '\x0c', '\r'].all (IsAscii ·) = true) c hc)

theorem tests_isSpaceByte : Text.Tests isSpaceByte isSpace where
  ascii hc := by
    have heq {d : Char} (hd : IsAscii d) := (Text.tests_eq hd).ascii hc
    simp only [isSpaceByte, isSpace, List.any_cons, List.any_nil, Bool.or_false, Bool.or_assoc]
    rw [heq (d := ' ') (by decide), heq (d := '\t') (by decide), heq (d := '\n') (by decide),
      heq (d := '\x0c') (by decide), heq (d := '\r') (by decide)]
  high hb := by
    rw [isSpaceByte, List.any_eq_false]
    intro c hc
    simpa using hb.ne_toUInt8 (isAscii_of_mem_spaces hc)
  isAscii {c} hc := by
    exact isAscii_of_mem_spaces (by simpa [isSpace, or_assoc] using hc)

/-- From a place between two characters, white space and comments are gone past
    as by characters, and nothing is refused. The induction is on the text
    behind the place. -/
theorem triviaEnd?_of_from? (hrest : text.from? position = some rest) :
    triviaEnd? text position = some (text.size - (skipTrivia rest).size) := by
  fun_induction skipTrivia rest generalizing position with
  | case1 =>
    have hsize := size_of_from? hrest
    rw [triviaEnd?_of_none (peek_of_from?_nil hrest), ← hsize, Nat.add_sub_cancel]
  | case2 c t hspace ih =>
    have hascii := tests_isSpaceByte.isAscii hspace
    have hbyte : isSpaceByte c.toUInt8 = true := (tests_isSpaceByte.ascii hascii).trans hspace
    rw [triviaEnd?_of_peek ((peek_eq_ascii_iff hascii hrest).2 rfl), if_pos hbyte]
    exact ih (from?_tail hascii hrest)
  | case3 c t hspace hcomment =>
    obtain ⟨b, hpeek, hascii, hhigh⟩ := exists_peek_of_from? hrest
    have hbyte : ¬isSpaceByte b = true := by
      by_cases hc : IsAscii c
      · rwa [hascii hc, tests_isSpaceByte.ascii hc]
      · simp [tests_isSpaceByte.high (hhigh hc)]
    have hno : ¬BeginsComment text position := by
      rw [beginsComment_iff hrest, hcomment]
      decide
    have hsize := size_of_from? hrest
    rw [triviaEnd?_of_peek hpeek, if_neg hbyte, if_neg hno, ← hsize, Nat.add_sub_cancel]
  | case4 c t hspace comment u hcomment ih =>
    obtain ⟨htext, hne⟩ := eq_append_of_comment? hcomment
    have hbegins : BeginsComment text position :=
      (beginsComment_iff hrest).2 (by rw [hcomment]; rfl)
    have hend := commentEnd?_of_comment? hrest hcomment
    rw [htext] at hrest
    obtain ⟨hposition, hbehind⟩ := from?_behind hrest
    have hpositive : comment.size ≠ 0 := fun hzero => hne (Text.eq_nil_of_size_eq_zero hzero)
    rw [triviaEnd?_of_peek hbegins.1, if_neg (by decide), if_pos hbegins, hend]
    dsimp only
    rw [if_pos (by omega), ih hbehind]

end

section

variable {text rest u : Text} {position depth : Nat} {segment : Segment} {c opener closer : Char}

/-- What is no code is passed in one step, which advances, to another place
    between two characters. -/
theorem exists_skipped (hrest : text.from? position = some rest)
    (hnext : Segment.next? rest = some (segment, u))
    (hskipped : skippedEnd? text position = some (some (text.size - u.size))) :
    (∃ b, peek text position = some b) ∧ position < text.size - u.size ∧
      text.from? (text.size - u.size) = some u := by
  obtain ⟨htext, hne⟩ := Segment.eq_append_of_next? hnext
  have hpositive : segment.text.size ≠ 0 := fun hzero => hne (Text.eq_nil_of_size_eq_zero hzero)
  have hpeek : ∃ b, peek text position = some b := by
    rw [← Option.ne_none_iff_exists']
    intro hnone
    rw [skippedEnd?, hnone] at hskipped
    exact absurd hskipped (by simp)
  rw [htext] at hrest
  obtain ⟨hposition, hbehind⟩ := from?_behind hrest
  exact ⟨hpeek, by omega, hbehind⟩

/-- A character of code is looked at by itself, and behind it is another place
    between two characters. -/
theorem exists_code (hrest : text.from? position = some rest)
    (hnext : Segment.next? rest = some (.code c, u)) :
    rest = c :: u ∧ text.from? (position + c.utf8Size) = some u ∧
      skippedEnd? text position = some none := by
  obtain ⟨rfl, -⟩ := Segment.eq_append_of_next? hnext
  exact ⟨rfl, from?_cons hrest, skippedEnd?_of_next? hrest hnext⟩

/-- A character of code opens, closes or goes by with all its bytes. Both
    delimiters are ASCII, so that no byte of another character is taken for
    one. -/
theorem closerFrom?_of_char (hopener : IsAscii opener) (hcloser : IsAscii closer) (depth : Nat)
    (hrest : text.from? position = some (c :: rest))
    (hskipped : skippedEnd? text position = some none) :
    closerFrom? text opener.toUInt8 closer.toUInt8 depth position =
      if c = opener then
        closerFrom? text opener.toUInt8 closer.toUInt8 (depth + 1) (position + c.utf8Size)
      else if c = closer then
        match depth with
        | 0 => some (some position, position + 1)
        | depth + 1 => closerFrom? text opener.toUInt8 closer.toUInt8 depth (position + c.utf8Size)
      else
        closerFrom? text opener.toUInt8 closer.toUInt8 depth (position + c.utf8Size) := by
  obtain ⟨b, hpeek, hascii, hhigh⟩ := exists_peek_of_from? hrest
  by_cases hc : IsAscii c
  · have heq {d : Char} (hd : IsAscii d) : c.toUInt8 = d.toUInt8 ↔ c = d :=
      ⟨hc.toUInt8_inj hd, congrArg Char.toUInt8⟩
    rw [closerFrom?_of_code depth hpeek hskipped, hascii hc, hc.utf8Size_eq]
    simp only [heq hopener, heq hcloser]
  · have hstep (position : Nat) (b : UInt8) (hpeek : peek text position = some b) (hb : IsHigh b) :
        closerFrom? text opener.toUInt8 closer.toUInt8 depth position =
          closerFrom? text opener.toUInt8 closer.toUInt8 depth (position + 1) := by
      rw [closerFrom?_of_code depth hpeek (skippedEnd?_high hb hpeek),
        if_neg (hb.ne_toUInt8 hopener), if_neg (hb.ne_toUInt8 hcloser)]
    have hne {d : Char} (hd : IsAscii d) : c ≠ d := fun h => hc (h ▸ hd)
    rw [iterate_of_from? hstep hc hrest, if_neg (hne hopener), if_neg (hne hcloser)]

/-- From a place between two characters the search for a closer is not refused
    and finds what the search by characters does. Without a closer it ends at
    the end of the text. -/
theorem closerFrom?_of_from? (hopener : IsAscii opener) (hcloser : IsAscii closer) {passed : Text}
    (hrest : text.from? position = some rest) :
    closerFrom? text opener.toUInt8 closer.toUInt8 depth position =
      some (match closing? opener closer depth passed rest with
        | none => (none, text.size)
        | some (_, after) => (some (text.size - after.size - 1), text.size - after.size)) := by
  have skip {depth position : Nat} {rest u : Text} {segment : Segment}
      (hrest : text.from? position = some rest) (hnext : Segment.next? rest = some (segment, u))
      (hskipped : skippedEnd? text position = some (some (text.size - u.size))) :
      text.from? (text.size - u.size) = some u ∧
        closerFrom? text opener.toUInt8 closer.toUInt8 depth position =
        closerFrom? text opener.toUInt8 closer.toUInt8 depth (text.size - u.size) := by
    obtain ⟨⟨b, hpeek⟩, hlt, hbehind⟩ := exists_skipped hrest hnext hskipped
    exact ⟨hbehind, closerFrom?_of_skipped depth hpeek hskipped hlt⟩
  fun_induction closing? opener closer depth passed rest generalizing position with
  | case1 depth passed rest hnext =>
    obtain rfl := Segment.next?_eq_none_iff.1 hnext
    have hsize := size_of_from? hrest
    rw [closerFrom?_of_none depth (peek_of_from?_nil hrest), ← hsize]
    rfl
  | case2 depth passed rest after hnext ih =>
    obtain ⟨rfl, hbehind, hskipped⟩ := exists_code hrest hnext
    rw [closerFrom?_of_char hopener hcloser depth hrest hskipped, if_pos rfl, ih hbehind]
  | case3 passed rest after hnext hne =>
    obtain ⟨rfl, hbehind, hskipped⟩ := exists_code hrest hnext
    have hsize := size_of_from? hbehind
    rw [hcloser.utf8Size_eq] at hsize
    rw [closerFrom?_of_char hopener hcloser 0 hrest hskipped, if_neg hne, if_pos rfl]
    dsimp only
    rw [← hsize, Nat.add_sub_cancel, Nat.add_sub_cancel]
  | case4 passed rest after depth hnext hne ih =>
    obtain ⟨rfl, hbehind, hskipped⟩ := exists_code hrest hnext
    rw [closerFrom?_of_char hopener hcloser (depth + 1) hrest hskipped, if_neg hne, if_pos rfl]
    exact ih hbehind
  | case5 depth passed rest c after hnext hother hother' ih =>
    obtain ⟨rfl, hbehind, hskipped⟩ := exists_code hrest hnext
    rw [closerFrom?_of_char hopener hcloser depth hrest hskipped, if_neg hother, if_neg hother',
      ih hbehind]
  | case6 depth passed rest comment after hnext ih =>
    obtain ⟨hbehind, heq⟩ := skip hrest hnext (skippedEnd?_of_next? hrest hnext)
    rw [heq, ih hbehind]
  | case7 depth passed rest literal after hnext ih =>
    obtain ⟨hbehind, heq⟩ := skip hrest hnext (skippedEnd?_of_next? hrest hnext)
    rw [heq, ih hbehind]

theorem braceWeight_of_ne (hopen : c ≠ '{') (hclose : c ≠ '}') : braceWeight (.code c) = 0 := by
  unfold braceWeight
  split
  · next h => exact absurd (Segment.code.inj h) hopen
  · next h => exact absurd (Segment.code.inj h) hclose
  · rfl

/-- A character of code counts by its weight, whatever its bytes are. -/
theorem balanceFrom?_of_char (balance : Int) (hrest : text.from? position = some (c :: rest))
    (hskipped : skippedEnd? text position = some none) :
    balanceFrom? text balance position =
      balanceFrom? text (balance + braceWeight (.code c)) (position + c.utf8Size) := by
  obtain ⟨b, hpeek, hascii, hhigh⟩ := exists_peek_of_from? hrest
  by_cases hc : IsAscii c
  · have heq {d : Char} (hd : IsAscii d) : c.toUInt8 = d.toUInt8 ↔ c = d :=
      ⟨hc.toUInt8_inj hd, congrArg Char.toUInt8⟩
    rw [balanceFrom?_of_code balance hpeek hskipped, hascii hc, hc.utf8Size_eq]
    simp only [heq (d := '{') (by decide), heq (d := '}') (by decide)]
    by_cases hopen : c = '{'
    · subst hopen
      rfl
    · by_cases hclose : c = '}'
      · subst hclose
        rfl
      · rw [if_neg hopen, if_neg hclose, braceWeight_of_ne hopen hclose, Int.add_zero]
  · have hstep (position : Nat) (b : UInt8) (hpeek : peek text position = some b) (hb : IsHigh b) :
        balanceFrom? text balance position = balanceFrom? text balance (position + 1) := by
      rw [balanceFrom?_of_code balance hpeek (skippedEnd?_high hb hpeek),
        if_neg (hb.ne_toUInt8 (by decide)), if_neg (hb.ne_toUInt8 (by decide))]
    have hne {d : Char} (hd : IsAscii d) : c ≠ d := fun h => hc (h ▸ hd)
    rw [iterate_of_from? hstep hc hrest, braceWeight_of_ne (hne (by decide)) (hne (by decide)),
      Int.add_zero]

/-- From a place between two characters the count of braces is not refused and
    comes to the balance of the text behind the place. -/
theorem balanceFrom?_of_from? (balance : Int) (hrest : text.from? position = some rest) :
    balanceFrom? text balance position = some (balance + braceBalance rest) := by
  rw [braceBalance]
  fun_induction segments rest generalizing position balance with
  | case1 rest hnext =>
    obtain rfl := Segment.next?_eq_none_iff.1 hnext
    rw [balanceFrom?_of_none balance (peek_of_from?_nil hrest), List.foldr_nil, Int.add_zero]
  | case2 rest segment u hnext ih =>
    have hskipped := skippedEnd?_of_next? hrest hnext
    have skip (h : skippedEnd? text position = some (some (text.size - u.size))) :
        balanceFrom? text balance position =
          some (balance + (segments u).foldr
            (fun segment balance => braceWeight segment + balance) 0) := by
      obtain ⟨⟨b, hpeek⟩, hlt, hbehind⟩ := exists_skipped hrest hnext h
      rw [balanceFrom?_of_skipped balance hpeek h hlt, ih balance hbehind]
    rw [List.foldr_cons]
    cases segment with
    | code c =>
      obtain ⟨rfl, hbehind, -⟩ := exists_code hrest hnext
      rw [balanceFrom?_of_char balance hrest hskipped, ih _ hbehind, Int.add_assoc]
    | comment =>
      rw [skip hskipped, braceWeight, Int.zero_add]
      all_goals simp
    | literal =>
      rw [skip hskipped, braceWeight, Int.zero_add]
      all_goals simp

end

def eatAt? (text expected : Text) (position : Nat) : Option (Bool × Nat) :=
  (text.from? position).map fun rest =>
    if expected <+: rest then (true, position + expected.size) else (false, position)

def identifierAt? (text : Text) (position : Nat) : Option (Option Text × Nat) :=
  (text.from? position).bind fun rest =>
    match identifier? rest with
    | none => some (none, position)
    | some (name, _) =>
      (Span.slice? ⟨position, position + name.size⟩ text).map fun name =>
        (some name, position + name.size)

def matchingAt? (text : Text) (opener closer : UInt8) (position : Nat) :
    Option (Option Nat × Nat) :=
  if peek text position = some opener then closerFrom? text opener closer 0 (position + 1)
  else some (none, position)

section

variable {text rest : Text} {position : Nat}

/-- To take an expected text at a place is to take it from the text behind the
    place. -/
theorem eatAt?_of_from? (hrest : text.from? position = some rest) (expected : Text) :
    eatAt? text expected position =
      some (match Text.after? expected rest with
        | some after => (true, text.size - after.size)
        | none => (false, position)) := by
  rw [eatAt?, hrest, Option.map_some]
  by_cases hexpected : expected <+: rest
  · obtain ⟨after, rfl⟩ := hexpected
    rw [if_pos (List.prefix_append expected after), Text.after?_append, (from?_behind hrest).1]
  · rw [if_neg hexpected, Text.after?_eq_none_iff.2 hexpected]

/-- An identifier at a place is that of the text behind the place, and cutting
    it out is not refused. -/
theorem identifierAt?_of_from? (hrest : text.from? position = some rest) :
    identifierAt? text position =
      some (match identifier? rest with
        | some (name, after) => (some name, text.size - after.size)
        | none => (none, position)) := by
  rw [identifierAt?, hrest, Option.bind_some]
  cases hname : identifier? rest with
  | none => rfl
  | some found =>
    obtain ⟨name, after⟩ := found
    obtain rfl := eq_append_of_identifier? hname
    dsimp only
    rw [slice?_of_from? hrest, Option.map_some, (from?_behind hrest).1]

/-- From a place between two characters the closer of an opener is found as by
    characters. Where no opener stands the position stays. -/
theorem matchingAt?_of_from? {opener closer : Char} (hopener : IsAscii opener)
    (hcloser : IsAscii closer) (hrest : text.from? position = some rest) :
    matchingAt? text opener.toUInt8 closer.toUInt8 position =
      some (if rest.head? = some opener then
        match matching? opener closer rest with
        | some (_, after) => (some (text.size - after.size - 1), text.size - after.size)
        | none => (none, text.size)
      else (none, position)) := by
  have hpeek := peek_eq_ascii_iff hopener hrest
  rw [matchingAt?]
  by_cases hhead : rest.head? = some opener
  · obtain ⟨behind, rfl⟩ := List.head?_eq_some_iff.1 hhead
    rw [if_pos (hpeek.2 hhead), if_pos hhead,
      closerFrom?_of_from? hopener hcloser (from?_tail hopener hrest), matching?, if_pos rfl]
    cases closing? opener closer 0 [] behind <;> rfl
  · rw [if_neg fun h => hhead (hpeek.1 h), if_neg hhead]

end

end Bytewise

inductive Operation where
  | skipTrivia
  | eat (expected : Text)
  | identifier
  | findMatching (opener closer : Char)
  deriving DecidableEq, Repr

inductive Answer where
  | done
  | eaten (there : Bool)
  | named (name : Option Text)
  | closed (position : Option Nat)
  deriving DecidableEq, Repr

namespace Operation

/-- Whether the delimiters are bytes, as the program has them. -/
def OfBytes : Operation → Prop
  | findMatching opener closer => Text.IsAscii opener ∧ Text.IsAscii closer
  | _ => True

instance (operation : Operation) : Decidable operation.OfBytes :=
  match operation with
  | findMatching opener closer =>
    inferInstanceAs (Decidable (Text.IsAscii opener ∧ Text.IsAscii closer))
  | skipTrivia | eat _ | identifier => inferInstanceAs (Decidable True)

def perform? (cursor : Cursor) : Operation → Option (Answer × Cursor)
  | skipTrivia => some (.done, cursor.skipTrivia)
  | eat expected => (cursor.eat? expected).map fun (there, cursor) => (.eaten there, cursor)
  | identifier => cursor.identifier?.map fun (name, cursor) => (.named name, cursor)
  | findMatching opener closer =>
    let (position, cursor) := cursor.findMatching opener closer
    some (.closed position, cursor)

open Bytewise in
/-- The same byte by byte, at a position of a text. None tells that something
    was refused. -/
def performBytewise? (text : Text) (position : Nat) : Operation → Option (Answer × Nat)
  | skipTrivia => (triviaEnd? text position).map fun position => (.done, position)
  | eat expected =>
    (eatAt? text expected position).map fun (there, position) => (.eaten there, position)
  | identifier => (identifierAt? text position).map fun (name, position) => (.named name, position)
  | findMatching opener closer =>
    (matchingAt? text opener.toUInt8 closer.toUInt8 position).map fun (found, position) =>
      (.closed found, position)

/-- The answers to operations made one after another, and the cursor after
    each. Each operation begins where the one before it ended. -/
def run? (cursor : Cursor) : List Operation → Option (List (Answer × Cursor))
  | [] => some []
  | operation :: operations => do
    let (answer, cursor) ← operation.perform? cursor
    let trace ← run? cursor operations
    return (answer, cursor) :: trace

/-- The same byte by byte, with the position after each operation. -/
def runBytewise? (text : Text) (position : Nat) : List Operation → Option (List (Answer × Nat))
  | [] => some []
  | operation :: operations => do
    let (answer, position) ← operation.performBytewise? text position
    let trace ← runBytewise? text position operations
    return (answer, position) :: trace

section

variable {text rest : Text} {position : Nat}

open Bytewise

theorem le_of_from? {lead : Text} (hrest : text.from? position = some (lead ++ rest)) :
    position ≤ text.size - rest.size ∧ (text.from? (text.size - rest.size)).isSome := by
  obtain ⟨hposition, hbehind⟩ := from?_behind hrest
  exact ⟨by omega, by rw [hbehind]; rfl⟩

/-- The search of a cursor for a closer in terms of the text behind it, which
    the operations by bytes are stated in. -/
theorem findMatching_of_rest? {opener closer : Char} (hcloser : Text.IsAscii closer)
    (hrest : text.from? position = some rest) :
    Cursor.findMatching ⟨text, position⟩ opener closer =
      if rest.head? = some opener then
        match matching? opener closer rest with
        | some (_, after) => (some (text.size - after.size - 1), ⟨text, text.size - after.size⟩)
        | none => (none, ⟨text, text.size⟩)
      else (none, ⟨text, position⟩) := by
  have hcursor : Cursor.rest? ⟨text, position⟩ = some rest := hrest
  rw [Cursor.findMatching, hcursor]
  cases rest with
  | nil => rfl
  | cons c behind =>
    simp only [List.head?_cons, Option.some.injEq]
    by_cases hc : c = opener
    · subst hc
      rw [if_pos rfl, if_pos rfl, matching?, if_pos rfl]
      cases hclosing : closing? c closer 0 [] behind with
      | none => rfl
      | some found =>
        obtain ⟨inside, after⟩ := found
        have htext : behind = inside ++ closer :: after := eq_append_of_closing? hclosing
        have hsize := size_of_from? hrest
        rw [htext, Text.size_cons, Text.size_append, Text.size_cons, hcloser.utf8Size_eq] at hsize
        have hfound : position + c.utf8Size + inside.size = text.size - after.size - 1 := by omega
        simp only [hfound, Cursor.before]
    · rw [if_neg hc, if_neg hc]

/-- An operation from a place between two characters is not refused, answers as
    by characters and ends at such a place, not in front of where it began.
    There is one case for each operation. -/
theorem exists_performed (hrest : text.from? position = some rest) {operation : Operation}
    (hbytes : operation.OfBytes) :
    ∃ answer next, operation.performBytewise? text position = some (answer, next) ∧
      operation.perform? ⟨text, position⟩ = some (answer, ⟨text, next⟩) ∧ position ≤ next ∧
      (text.from? next).isSome := by
  have hcursor : Cursor.rest? ⟨text, position⟩ = some rest := hrest
  have hhere : position ≤ position ∧ (text.from? position).isSome :=
    ⟨Nat.le_refl _, by rw [hrest]; rfl⟩
  cases operation with
  | skipTrivia =>
    obtain ⟨trivia, htrivia⟩ := exists_append_skipTrivia rest
    have hle := le_of_from? (hrest.trans (congrArg some htrivia))
    refine ⟨.done, text.size - (Lexical.skipTrivia rest).size, ?_, ?_, hle⟩
    · rw [performBytewise?, triviaEnd?_of_from? hrest, Option.map_some]
    · rw [perform?, Cursor.skipTrivia, hcursor]
      rfl
  | eat expected =>
    rw [performBytewise?, perform?, Cursor.eat?, hcursor, eatAt?_of_from? hrest]
    cases hafter : Text.after? expected rest with
    | none =>
      refine ⟨.eaten false, position, rfl, ?_, hhere⟩
      simp only [Option.map_some, hafter]
    | some after =>
      refine ⟨.eaten true, text.size - after.size, rfl, ?_,
        le_of_from? (Text.eq_append_of_after? hafter ▸ hrest)⟩
      simp only [Option.map_some, hafter, Cursor.before]
  | identifier =>
    rw [performBytewise?, perform?, Cursor.identifier?, hcursor, identifierAt?_of_from? hrest]
    cases hname : Lexical.identifier? rest with
    | none =>
      refine ⟨.named none, position, rfl, ?_, hhere⟩
      simp only [Option.map_some, hname]
    | some found =>
      obtain ⟨name, after⟩ := found
      refine ⟨.named (some name), text.size - after.size, rfl, ?_,
        le_of_from? (eq_append_of_identifier? hname ▸ hrest)⟩
      simp only [Option.map_some, hname, Cursor.before]
  | findMatching opener closer =>
    obtain ⟨hopener, hcloser⟩ := hbytes
    rw [performBytewise?, perform?, findMatching_of_rest? hcloser hrest,
      matchingAt?_of_from? hopener hcloser hrest]
    split
    · cases hmatching : matching? opener closer rest with
      | none =>
        have hend : position ≤ text.size - Text.size [] ∧
          (text.from? (text.size - Text.size [])).isSome :=
          le_of_from? (hrest.trans (congrArg some (List.append_nil rest).symm))
        exact ⟨.closed none, text.size, rfl, rfl, hend⟩
      | some found =>
        obtain ⟨inside, after⟩ := found
        have htext : rest = (opener :: (inside ++ [closer])) ++ after := by
          rw [eq_cons_append_of_matching? hmatching]
          simp
        exact ⟨.closed (some (text.size - after.size - 1)), text.size - after.size, rfl, rfl,
          le_of_from? (htext ▸ hrest)⟩
    · exact ⟨.closed none, position, rfl, rfl, hhere⟩

/-- Operations made one after another are not refused, and each ends at a place
    not in front of the one before. The induction is on the operations, with
    `exists_performed` for each of them. -/
theorem exists_trace (hrest : (text.from? position).isSome) {operations : List Operation}
    (hbytes : ∀ operation ∈ operations, operation.OfBytes) :
    ∃ trace, runBytewise? text position operations = some trace ∧
      run? ⟨text, position⟩ operations =
        some (trace.map fun (answer, next) => (answer, ⟨text, next⟩)) ∧
      trace.length = operations.length ∧ (position :: trace.map (·.2)).IsChain (· ≤ ·) ∧
      ∀ next ∈ trace.map (·.2), next ≤ text.size ∧ (text.from? next).isSome := by
  induction operations generalizing position with
  | nil => exact ⟨[], rfl, rfl, rfl, by simp, by simp⟩
  | cons operation operations ih =>
    obtain ⟨hoperation, hbytes⟩ := List.forall_mem_cons.1 hbytes
    obtain ⟨rest, hrest⟩ := Option.isSome_iff_exists.1 hrest
    obtain ⟨answer, next, hbytewise, hperformed, hle, hnext⟩ := exists_performed hrest hoperation
    obtain ⟨trace, hrun, hcursor, hlength, hchain, hplaces⟩ := ih hnext hbytes
    obtain ⟨behind, hbehind⟩ := Option.isSome_iff_exists.1 hnext
    have hsize := size_of_from? hbehind
    refine ⟨(answer, next) :: trace, ?_, ?_, congrArg (· + 1) hlength, ?_, ?_⟩
    · rw [runBytewise?, hbytewise]
      simp [hrun]
    · rw [run?, hperformed]
      simp [hcursor]
    · exact .cons_cons hle hchain
    · rw [List.map_cons, List.forall_mem_cons]
      exact ⟨⟨by omega, hnext⟩, hplaces⟩

end

end Operation

end Lexical

end EntitySplit
