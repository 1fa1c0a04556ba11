import EntitySplit.Proofs.Block.Starts
import EntitySplit.Proofs.Lexical.Operations
import EntitySplit.Proofs.Reference.Rewriting

namespace EntitySplit

namespace Block

open Lexical Bytewise

/-- A reading that moves a position: none where something is refused, and `some
    none` where the text has not the shape that is read. Only the first would
    end the program. -/
def Scan (α : Type) :=
  (position : Nat) → Option (Option (α × Nat))

namespace Scan

variable {α β : Type}

def pure (a : α) : Scan α :=
  fun position => some (some (a, position))

def bind (scan : Scan α) (next : α → Scan β) : Scan β :=
  fun position =>
    (scan position).bind fun found =>
      match found with
      | none => some none
      | some (a, position) => next a position

instance : Monad Scan where
  pure := pure
  bind := bind

def mismatch : Scan α :=
  fun _ => some none

def here : Scan Nat :=
  fun position => some (some (position, position))

/-- Takes what has been cut out, if it could be. A cut that is refused makes
    the whole reading refuse. -/
def take (slice : Option α) : Scan α :=
  fun position => slice.map fun a => some (a, position)

def trivia (text : Text) : Scan Unit :=
  fun position => (triviaEnd? text position).map fun next => some ((), next)

def eat (text expected : Text) : Scan Bool :=
  fun position => (eatAt? text expected position).map some

def expect (text expected : Text) : Scan Unit := do
  if ← eat text expected then pure () else mismatch

def identifier (text : Text) : Scan Text :=
  fun position => (identifierAt? text position).map fun (name, next) => name.map fun name =>
    (name, next)

def matching (text : Text) (opener closer : Char) : Scan Nat :=
  fun position =>
    (matchingAt? text opener.toUInt8 closer.toUInt8 position).map fun (found, next) =>
      found.map fun found => (found, next)

/-- The text between an opener and its closer. Both are one byte long, so the
    cut begins one byte behind the opener. -/
def enclosed (text : Text) (opener closer : Char) : Scan Text := do
  let start ← here
  let stop ← matching text opener closer
  take (Span.slice? ⟨start + 1, stop⟩ text)

def parameter (text : Text) : Scan Text := do
  if ← eat text ['('] then
    trivia text
    let name ← identifier text
    trivia text
    expect text [')']
    pure name
  else
    identifier text

def content (text : Text) : Scan Content := do
  let argument ← enclosed text '<' '>'
  let typeName := Text.trim argument
  if typeName.isEmpty then
    mismatch
  else
    trivia text
    expect text ['(']
    trivia text
    let parameterName ← parameter text
    trivia text
    expect text ['=', '>']
    trivia text
    let statements ← enclosed text '{' '}'
    trivia text
    expect text [')']
    trivia text
    expect text [';']
    pure { typeName, parameterName, statements }

/-- From each place between two characters a scan goes where a reading of the
    text behind that place goes, and finds what it finds. So it never refuses
    there, and it goes on from such a place. -/
structure Follows (text : Text) (scan : Scan α) (read : Text → Option (α × Text)) : Prop where
  eq {position : Nat} {rest : Text} (hrest : text.from? position = some rest) :
    scan position = some ((read rest).map fun (a, after) => (a, text.size - after.size))
  suffix {rest after : Text} {a : α} (h : read rest = some (a, after)) : after <:+ rest

section

variable {text expected : Text} {read read' : Text → Option (α × Text)} {scan : Scan α}

theorem Follows.pure (a : α) : Follows text (Scan.pure a) fun rest => some (a, rest) where
  eq hrest := by
    have hsize := size_of_from? hrest
    rw [Scan.pure, Option.map_some]
    dsimp only
    rw [← hsize, Nat.add_sub_cancel]
  suffix h := by
    cases h
    exact List.suffix_rfl

theorem Follows.mismatch : Follows text (Scan.mismatch : Scan α) fun _ => none where
  eq _ := rfl
  suffix h := absurd h (by simp)

/-- Two scans one after the other follow two readings one after the other. The
    second may depend on what the first has found. -/
theorem Follows.bind {next : α → Scan β} {readNext : α → Text → Option (β × Text)}
    (h : Follows text scan read) (hnext : ∀ a, Follows text (next a) (readNext a)) :
    Follows text (scan >>= next) fun rest => (read rest).bind fun (a, after) =>
      readNext a after where
  eq {position rest} hrest := by
    have hscan := h.eq hrest
    change (scan position).bind _ = _
    rw [hscan, Option.bind_some]
    cases hread : read rest with
    | none => rfl
    | some found =>
      obtain ⟨a, after⟩ := found
      obtain ⟨lead, rfl⟩ := h.suffix hread
      exact (hnext a).eq (from?_behind hrest).2
  suffix hbind := by
    obtain ⟨⟨a, after⟩, hread, hnextRead⟩ := Option.bind_eq_some_iff.1 hbind
    exact ((hnext a).suffix hnextRead).trans (h.suffix hread)

/-- A scan that depends on a condition follows a reading that depends on it.
    The condition is not on the text, but on what has been found in it. -/
theorem Follows.ite {other : Scan α} {readOther : Text → Option (α × Text)} {p : Prop} [Decidable p]
    (h : Follows text scan read) (hother : Follows text other readOther) :
    Follows text (if p then scan else other) fun rest => if p then read rest
      else readOther rest := by
  split
  · exact h
  · exact hother

theorem Follows.congr (h : Follows text scan read) (hread : ∀ rest, read rest = read' rest) :
    Follows text scan read' := by
  obtain rfl : read = read' := funext hread
  exact h

/-- Skipping white space and comments byte by byte ends where skipping them by
    characters does. -/
theorem follows_trivia : Follows text (trivia text) fun rest => some ((), skipTrivia rest) where
  eq hrest := by
    rw [trivia, triviaEnd?_of_from? hrest]
    rfl
  suffix {rest _ _} h := by
    cases h
    obtain ⟨lead, hlead⟩ := exists_append_skipTrivia rest
    exact ⟨lead, hlead.symm⟩

/-- Taking an expected text byte by byte takes it if the text goes on with it,
    and else stays. -/
theorem follows_eat : Follows text (eat text expected) fun rest =>
    some (match Text.after? expected rest with
      | some after => (true, after)
      | none => (false, rest)) where
  eq {position rest} hrest := by
    have hsize := size_of_from? hrest
    have hposition : position = text.size - rest.size := by omega
    rw [eat, eatAt?_of_from? hrest]
    cases Text.after? expected rest with
    | none => rw [hposition]; rfl
    | some after => rfl
  suffix {rest after there} h := by
    cases hafter : Text.after? expected rest with
    | none =>
      rw [hafter] at h
      cases h
      exact List.suffix_rfl
    | some behind =>
      rw [hafter] at h
      cases h
      exact ⟨expected, (Text.eq_append_of_after? hafter).symm⟩

/-- To insist on an expected text is to take it, or not to have the shape that
    is read. -/
theorem follows_expect : Follows text (expect text expected) fun rest =>
    (Text.after? expected rest).map fun after => ((), after) := by
  apply (follows_eat.bind fun there => Follows.ite (Follows.pure ()) Follows.mismatch).congr
  intro rest
  cases hafter : Text.after? expected rest <;> rfl

/-- An identifier is found byte by byte where it is found by characters,
    although its letters can take up several bytes. -/
theorem follows_identifier : Follows text (identifier text) identifier? where
  eq {position rest} hrest := by
    rw [identifier, identifierAt?_of_from? hrest]
    cases identifier? rest <;> rfl
  suffix h := ⟨_, (eq_append_of_identifier? h).symm⟩

/-- The text between an opener and its closer is cut out as it is read by
    characters. Both must be ASCII, since the search compares single bytes. -/
theorem follows_enclosed {opener closer : Char} (hopener : Text.IsAscii opener)
    (hcloser : Text.IsAscii closer) :
    Follows text (enclosed text opener closer) (matching? opener closer) where
  eq {position rest} hrest := by
    have hmatching := matchingAt?_of_from? hopener hcloser hrest
    change (matching text opener closer position).bind _ = _
    cases hfound : matching? opener closer rest with
    | none =>
      have hnone : matching text opener closer position = some none := by
        rw [matching, hmatching, hfound]
        split <;> rfl
      rw [hnone]
      rfl
    | some found =>
      obtain ⟨inside, after⟩ := found
      obtain rfl := eq_cons_append_of_matching? hfound
      have hinside := from?_tail hopener hrest
      have hslice := slice?_of_from? hinside
      have hsize := size_of_from? hinside
      rw [Text.size_append, Text.size_cons, hcloser.utf8Size_eq] at hsize
      have hstop : position + 1 + inside.size = text.size - after.size - 1 := by omega
      rw [hstop] at hslice
      rw [matching, hmatching, hfound, List.head?_cons, if_pos rfl]
      change (Span.slice? ⟨position + 1, text.size - after.size - 1⟩ text).map _ = _
      rw [hslice]
      rfl
  suffix {rest after inside} h := by
    obtain rfl := eq_cons_append_of_matching? h
    exact ⟨opener :: (inside ++ [closer]), by simp⟩

/-- The parameter of a lambda is found byte by byte as it is read by
    characters, in parentheses or bare. -/
theorem follows_parameter : Follows text (parameter text) parameter? := by
  apply (follows_eat.bind fun there =>
    Follows.ite (follows_trivia.bind fun _ => follows_identifier.bind fun name =>
    follows_trivia.bind fun _ => follows_expect.bind fun _ =>
      Follows.pure name) follows_identifier).congr
  intro rest
  rw [parameter?]
  cases Text.after? ['('] rest with
  | none => rfl
  | some after =>
    simp only [Option.map_eq_bind, Option.bind_assoc, Option.bind_some, if_pos]
    rfl

/-- The content of a block is found byte by byte as it is read by characters.
    It is put together from the pieces in the order in which the program reads
    them. -/
theorem follows_content : Follows text (content text) Content.read? := by
  apply ((follows_enclosed (by decide) (by decide)).bind fun argument =>
    Follows.ite Follows.mismatch
    (follows_trivia.bind fun _ => follows_expect.bind fun _ => follows_trivia.bind fun _ =>
      follows_parameter.bind fun parameterName => follows_trivia.bind fun _ =>
        follows_expect.bind fun _ =>
      follows_trivia.bind fun _ => (follows_enclosed (by decide) (by decide)).bind fun statements =>
      follows_trivia.bind fun _ => follows_expect.bind fun _ => follows_trivia.bind fun _ =>
      follows_expect.bind fun _ => Follows.pure _)).congr
  intro rest
  rw [Content.read?]
  cases matching? '<' '>' rest with
  | none => rfl
  | some found =>
    obtain ⟨argument, after⟩ := found
    simp only [Option.map_eq_bind, Option.bind_assoc, Option.bind_some]
    rfl

end

end Scan

/-- Where taking out a statement begins: at the line break before it if only
    indentation stands between the two, at the statement itself if anything
    else does. -/
def removalStart? (text : Text) (start : Nat) : Option Nat :=
  (Text.lineStart? text start).bind fun line =>
    (Span.slice? ⟨line, start⟩ text).bind fun before =>
      if ¬before.all Text.isIndent then some start
      else if line ≤ 1 then some 0
      else (peek text (line - 2)).map fun b => if b = '\r'.toUInt8 then line - 2 else line - 1

/-- The block that starts at a position and whose type argument begins at
    another, if there is one. Two cuts are made behind the content, for the
    call site and the line before it. -/
def blockAt? (text : Text) (start angle : Nat) : Option (Option Block) :=
  (Scan.content text angle).bind fun found =>
    match found with
    | none => some none
    | some (content, stop) =>
      (removalStart? text start).bind fun removal =>
        (Span.slice? ⟨removal, start⟩ text).map fun callSite =>
          some { outer := ⟨start, stop⟩, removal := ⟨removal, stop⟩, callSite, content }

/-- The blocks from a position on. Behind a block or a start without one the
    search goes on, if it has advanced; a search that has not would be refused
    here. -/
def locateFrom? (receiver text : Text) (position : Nat) : Option (List Block) :=
  if position < text.size then
    match (starts receiver text).find? (position ≤ ·.start) with
    | none => some []
    | some start =>
      match blockAt? text start.start (start.stop - 1) with
      | none => none
      | some none => if position < start.stop then locateFrom? receiver text start.stop else none
      | some (some block) =>
        if position < block.outer.stop
          then (locateFrom? receiver text block.outer.stop).map (block :: ·) else none
  else
    some []
termination_by text.size - position

section

variable {receiver text before rest : Text} {position : Nat}

theorem exists_peek_of_lt (hlt : position < text.size) : ∃ b, peek text position = some b :=
  ⟨_, List.getElem?_eq_getElem (by rwa [Text.length_bytes])⟩

/-- The line that a text breaks off in, and where it begins. A line feed is one
    byte, so the byte behind it is a place to cut. -/
theorem lineStart?_append (htext : text = before ++ rest) :
    Text.lineStart? text before.size = some (Text.size (before.reverse.dropWhile (· != '\n'))) ∧
      Span.slice? ⟨Text.size (before.reverse.dropWhile (· != '\n')), before.size⟩ text =
        some (before.reverse.takeWhile (· != '\n')).reverse := by
  have hsplit : Text.splitAt? text before.size = some (before, rest) :=
    Text.splitAt?_eq_some_iff.2 ⟨htext, rfl⟩
  have parts := List.takeWhile_append_dropWhile (p := (· != '\n')) (l := before.reverse)
  rw [Text.lineStart?, hsplit, Option.map_some]
  dsimp only
  generalize before.reverse.takeWhile (· != '\n') = line at parts ⊢
  generalize before.reverse.dropWhile (· != '\n') = lead at parts ⊢
  have hbefore : before = lead.reverse ++ line.reverse := by
    rw [← List.reverse_append, parts, List.reverse_reverse]
  have hsize : before.size = Text.size lead + Text.size line := by
    rw [hbefore, Text.size_append, Text.size_reverse, Text.size_reverse]
  refine ⟨by rw [hsize, Nat.add_sub_cancel],
    Span.slice?_eq_some_iff.2 ⟨lead.reverse, rest, ?_, ?_, ?_⟩⟩
  · rw [htext, hbefore]
  · exact Text.size_reverse lead
  · rw [hsize, Text.size_reverse, Text.size_reverse]

/-- The byte before a place is that of a carriage return only if the character
    is one. No byte of a longer character is. -/
theorem exists_peek_before {lead : Text} (htext : text = lead.reverse ++ rest)
    (hsize : Text.size lead ≠ 0) (hlead : lead.head? ≠ some '\r') :
    ∃ b, peek text (Text.size lead - 1) = some b ∧ b ≠ '\r'.toUInt8 := by
  have hfits : Text.size lead - 1 < text.size := by
    rw [htext, Text.size_append, Text.size_reverse]
    omega
  obtain ⟨b, hpeek⟩ := exists_peek_of_lt hfits
  refine ⟨b, hpeek, ?_⟩
  rintro rfl
  obtain ⟨head, behind, hreturn, hhead⟩ := Text.exists_append_of_getElem?_bytes (by decide) hpeek
  have hcut : lead.reverse ++ rest = (head ++ ['\r']) ++ behind := by
    rw [← htext, hreturn, List.append_assoc]
    rfl
  have hplace : Text.size lead.reverse = (head ++ ['\r']).size := by
    rw [Text.size_reverse, Text.size_append, hhead, Text.size_cons,
      Text.IsAscii.utf8Size_eq (by decide), Text.size_nil]
    omega
  have hlast := (Text.append_inj_of_size hcut hplace).1
  rw [List.reverse_eq_iff, List.reverse_append] at hlast
  exact hlead (by rw [hlast]; rfl)

/-- The removal begins, counted in bytes, where the cut before the statement
    falls by characters. -/
theorem removalStart?_eq (htext : text = before ++ rest) :
    removalStart? text before.size = some (cutCallSite true before.reverse).1.size := by
  obtain ⟨hline, hslice⟩ := lineStart?_append htext
  rw [removalStart?, hline, Option.bind_some, hslice, Option.bind_some, List.all_reverse]
  obtain ⟨reversed, rfl⟩ : ∃ reversed : Text, before = reversed.reverse :=
    ⟨before.reverse, before.reverse_reverse.symm⟩
  rw [List.reverse_reverse] at *
  have hrun {indent : Text} (hindent : ∀ c ∈ indent, Text.isIndent c = true) :
    ∀ c ∈ indent, (c != '\n') = true := by
    intro c hc
    rw [bne_iff_ne]
    rintro rfl
    exact absurd (hindent _ hc) (by decide)
  cases leadIn reversed with
  | @afterReturn indent lead hindent =>
    have hstop : ∀ c ∈ List.head? ('\n' :: '\r' :: lead), (c != '\n') = false := by simp
    rw [Text.takeWhile_run_append (hrun hindent) hstop,
      Text.dropWhile_run_append (hrun hindent) hstop, cutCallSite_return hindent,
      List.all_eq_true.2 hindent]
    have hreturn : text.from? (Text.size lead) = some ('\r' :: '\n' :: (indent.reverse ++ rest)) :=
      Text.from?_eq_some_iff.2 ⟨lead.reverse, by simp [htext], Text.size_reverse lead⟩
    have hsize : Text.size ('\n' :: '\r' :: lead) = Text.size lead + 2 := by
      simp only [Text.size_cons, Text.IsAscii.utf8Size_eq (show Text.IsAscii '\n' by decide),
        Text.IsAscii.utf8Size_eq (show Text.IsAscii '\r' by decide)]
      omega
    rw [hsize, if_neg (by simp), if_neg (by omega), Nat.add_sub_cancel,
      (peek_eq_ascii_iff (by decide) hreturn).2 rfl, Option.map_some, if_pos rfl, Text.size_reverse]
  | @afterFeed indent lead hindent hlead =>
    have hstop : ∀ c ∈ List.head? ('\n' :: lead), (c != '\n') = false := by simp
    rw [Text.takeWhile_run_append (hrun hindent) hstop,
      Text.dropWhile_run_append (hrun hindent) hstop, cutCallSite_feed hindent true hlead,
      List.all_eq_true.2 hindent]
    have hsize : Text.size ('\n' :: lead) = Text.size lead + 1 := by
      rw [Text.size_cons, Text.IsAscii.utf8Size_eq (by decide), Nat.add_comm]
    rw [hsize, if_neg (by simp), Text.size_reverse]
    by_cases hfirst : Text.size lead = 0
    · rw [if_pos (by omega), hfirst]
    · have hfeed : text = lead.reverse ++ '\n' :: (indent.reverse ++ rest) := by simp [htext]
      obtain ⟨b, hpeek, hne⟩ := exists_peek_before hfeed hfirst hlead
      rw [if_neg (by omega), Nat.add_sub_add_right _ 1 1, hpeek, Option.map_some, if_neg hne,
        Nat.add_sub_cancel]
  | first hindent =>
    have hstop : ∀ c ∈ List.head? [], (c != '\n') = false := by simp
    have htake := Text.takeWhile_run_append (hrun hindent) hstop
    have hdrop := Text.dropWhile_run_append (hrun hindent) hstop
    rw [List.append_nil] at htake hdrop
    rw [htake, hdrop, List.all_eq_true.2 hindent, cutCallSite_first hindent]
    rfl
  | @afterOther indent c lead hindent hc hfeed =>
    have hnot : ((indent ++ c :: lead).takeWhile (· != '\n')).all Text.isIndent = false := by
      have hpos : (c != '\n') = true := bne_iff_ne.2 hfeed
      rw [List.takeWhile_append_of_pos (hrun hindent), List.takeWhile_cons, if_pos hpos,
        List.all_append, List.all_cons, hc, Bool.false_and, Bool.and_false]
    rw [hnot, cutCallSite_other hindent true hc hfeed]
    rfl

theorem blockAt?_eq {inner : Text} (htext : text = before ++ rest) {angle : Nat}
    (hangle : text.from? angle = some ('<' :: inner)) :
    blockAt? text before.size angle =
      some ((Content.read? ('<' :: inner)).map fun (content, after) =>
      { outer := ⟨before.size, text.size - after.size⟩
        removal := ⟨(cutCallSite true before.reverse).1.size, text.size - after.size⟩
        callSite := (cutCallSite true before.reverse).2
        content }) := by
  rw [blockAt?, Scan.follows_content.eq hangle, Option.bind_some]
  cases Content.read? ('<' :: inner) with
  | none => rfl
  | some found =>
    obtain ⟨content, after⟩ := found
    have hsite := cutCallSite_append true before.reverse
    rw [List.reverse_reverse] at hsite
    have hslice : Span.slice? ⟨(cutCallSite true before.reverse).1.size, before.size⟩ text =
        some (cutCallSite true before.reverse).2 := by
      refine Span.slice?_eq_some_iff.2 ⟨_, rest, ?_, rfl, ?_⟩
      · rw [hsite, htext]
      · rw [← Text.size_append, hsite]
    simp only [Option.map_some, removalStart?_eq htext, Option.bind_some, hslice]

/-- The first start from a position on is the first that begins in the text
    behind the position. The text before has starts as well, but these begin
    earlier. -/
theorem find?_startsFrom {previous : Option Char} (t : Text) :
    (startsFrom receiver position previous (before ++ t)).find? (position + before.size ≤ ·.start) =
      (startsFrom receiver (position + before.size) (before.getLast?.or previous) t).head? := by
  induction before generalizing position previous with
  | nil =>
    rw [List.nil_append, Text.size_nil, Nat.add_zero]
    cases hstarts : startsFrom receiver position previous t with
    | nil => rw [List.getLast?_nil, Option.none_or, hstarts]; rfl
    | cons span spans =>
      have hspan : span ∈ startsFrom receiver position previous t := hstarts ▸ List.mem_cons_self
      have hbounds := bounds_of_mem_startsFrom hspan
      rw [List.find?_cons_of_pos (by simpa using hbounds.1), List.getLast?_nil, Option.none_or,
        hstarts, List.head?_cons]
  | cons c before ih =>
    have hlast : (c :: before).getLast?.or previous = before.getLast?.or (some c) := by
      rw [List.getLast?_cons]
      cases before.getLast? <;> rfl
    have hpositive := c.utf8Size_pos
    have hbehind : (startsFrom receiver (position + c.utf8Size) (some c) (before ++ t)).find?
        (position + c.utf8Size + Text.size before ≤ ·.start) =
          (startsFrom receiver (position + c.utf8Size + Text.size before)
            (before.getLast?.or (some c)) t).head? := ih
    rw [List.cons_append, Text.size_cons, hlast, ← Nat.add_assoc]
    rcases startsFrom_cons receiver position previous c (before ++ t) with
      ⟨-, heq⟩ | ⟨head, inner, -, -, heq⟩
    · rw [heq, hbehind]
    · rw [heq, List.find?_cons_of_neg (by simp only [decide_eq_true_eq]; omega), hbehind]

/-- The start that the search goes to from a place is the first in the text
    behind that place, seen with the character before it. -/
theorem find?_starts (htext : text = before ++ rest) :
    (starts receiver text).find? (before.size ≤ ·.start) =
      (startsFrom receiver before.size before.getLast? rest).head? := by
  have h : (startsFrom receiver 0 none (before ++ rest)).find? (0 + before.size ≤ ·.start) =
      (startsFrom receiver (0 + before.size) (before.getLast?.or none) rest).head? :=
        find?_startsFrom rest
  rwa [Nat.zero_add, Option.or_none, ← htext] at h

/-- At a start nothing is refused, and a block goes on beyond it. What the
    start ends with supplies the place to read from. -/
theorem exists_blockAt? {start : Span} (hmem : start ∈ starts receiver text) :
    ∃ found, blockAt? text start.start (start.stop - 1) = some found ∧
      ∀ block ∈ found, start.start < block.outer.stop := by
  obtain ⟨before, head, inner, htext, -, rfl⟩ := mem_startsFrom_iff.1 hmem
  have hangle : text.from? (before.size + head.size) = some ('<' :: inner) :=
    Text.from?_eq_some_iff.2
      ⟨before ++ head, by rw [htext, List.append_assoc], Text.size_append before head⟩
  have hblock := blockAt?_eq htext hangle
  simp only [Nat.zero_add, Nat.add_sub_cancel]
  refine ⟨_, hblock, ?_⟩
  intro block hblock
  obtain ⟨⟨content, after⟩, hread, rfl⟩ := Option.map_eq_some_iff.1 hblock
  obtain ⟨body, hbody⟩ := Content.exists_append_of_read? hread
  have hsize := size_of_from? hangle
  rw [hbody, Text.size_cons, Text.size_append, Text.size_cons] at hsize
  have hpositive := Char.utf8Size_pos '<'
  dsimp only
  omega

/-- Both ways the search goes on have advanced, so the check for it can be left
    out. Everything below uses the search in this form. -/
theorem locateFrom?_eq (receiver text : Text) (position : Nat) :
    locateFrom? receiver text position =
      match (starts receiver text).find? (position ≤ ·.start) with
      | none => some []
      | some start =>
        match blockAt? text start.start (start.stop - 1) with
        | none => none
        | some none => locateFrom? receiver text start.stop
        | some (some block) => (locateFrom? receiver text block.outer.stop).map (block :: ·) := by
  rw [locateFrom?]
  cases hfind : (starts receiver text).find? (position ≤ ·.start) with
  | none => split <;> rfl
  | some start =>
    have hmem := List.mem_of_find?_eq_some hfind
    have hle : position ≤ start.start := by simpa using List.find?_some hfind
    have hbounds := bounds_of_mem_startsFrom hmem
    obtain ⟨found, hfound, hbehind⟩ := exists_blockAt? hmem
    rw [if_pos (by omega)]
    dsimp only
    rw [hfound]
    cases found with
    | none => exact if_pos (by omega)
    | some block =>
      have hlt := hbehind block rfl
      exact if_pos (by omega)

/-- Where no start begins, the search from a character finds what the search
    from behind it does. -/
theorem locateFrom?_of_no_start {c : Char} {t : Text} (htext : text = before ++ c :: t)
    (hstart : afterStart? receiver before.getLast? (c :: t) = none) :
    locateFrom? receiver text before.size = locateFrom? receiver text (before ++ [c]).size := by
  have hbehind : text = (before ++ [c]) ++ t := by simp [htext]
  have hsize : (before ++ [c]).size = before.size + c.utf8Size := Text.size_append before [c]
  rw [locateFrom?_eq, find?_starts htext, locateFrom?_eq, find?_starts hbehind,
    List.getLast?_concat, hsize]
  rcases startsFrom_cons receiver before.size before.getLast? c t with
    ⟨-, heq⟩ | ⟨_, _, -, hsome, -⟩
  · rw [heq]
  · rw [hstart] at hsome
    exact absurd hsome (by simp)

/-- Where a start begins, the search finds the block there and goes on behind
    it, or goes on behind the `<` of the start. -/
theorem locateFrom?_of_start {head inner : Text} (htext : text = before ++ (head ++ '<' :: inner))
    (hstart : afterStart? receiver before.getLast? (head ++ '<' :: inner) = some inner) :
    locateFrom? receiver text before.size =
      match Content.read? ('<' :: inner) with
      | none => locateFrom? receiver text (before ++ (head ++ ['<'])).size
      | some (content, after) =>
        (locateFrom? receiver text (text.size - after.size)).map
          ({ outer := ⟨before.size, text.size - after.size⟩
             removal := ⟨(cutCallSite true before.reverse).1.size, text.size - after.size⟩
             callSite := (cutCallSite true before.reverse).2
             content } :: ·) := by
  have hfirst : (startsFrom receiver before.size before.getLast? (head ++ '<' :: inner)).head? =
      some ⟨before.size, before.size + head.size + 1⟩ := by
    obtain ⟨c, t, hcons⟩ : ∃ c t, head ++ '<' :: inner = c :: t :=
      List.exists_cons_of_ne_nil (by simp)
    rw [hcons] at hstart ⊢
    rcases startsFrom_cons receiver before.size before.getLast? c t with
      ⟨hnone, -⟩ | ⟨head', inner', heq, hsome, hstarts⟩
    · rw [hstart] at hnone
      exact absurd hnone (by simp)
    · obtain rfl := Option.some.inj (hstart.symm.trans hsome)
      obtain rfl := List.append_cancel_right (hcons.trans heq)
      rw [hstarts, List.head?_cons]
  have hangle : text.from? (before.size + head.size) = some ('<' :: inner) :=
    Text.from?_eq_some_iff.2
      ⟨before ++ head, by rw [htext, List.append_assoc], Text.size_append before head⟩
  have hbehind : (before ++ (head ++ ['<'])).size = before.size + head.size + 1 := by
    rw [Text.size_append, Text.size_append, Text.size_cons, Text.size_nil,
      Text.IsAscii.utf8Size_eq (by decide), Nat.add_assoc]
  rw [locateFrom?_eq, find?_starts htext, hfirst, hbehind]
  simp only [Nat.add_sub_cancel, blockAt?_eq htext hangle]
  cases Content.read? ('<' :: inner) <;> rfl

/-- The search by positions finds the blocks that the search by characters cuts
    out, from each place to which that one comes. The induction is that of the
    search by characters. -/
theorem locateFrom?_of_dissectFrom {passed kept t : Text} {atStart : Bool}
    (htext : text = passed ++ kept.reverse ++ t) (hpassed : Passed atStart passed) :
    locateFrom? receiver text (passed ++ kept.reverse).size =
      some (ofExcerpts passed.size (dissectFrom receiver atStart kept t).excerpts) := by
  fun_induction dissectFrom receiver atStart kept t generalizing passed with
  | case1 =>
    rw [locateFrom?_eq, find?_starts htext]
    rfl
  | case2 atStart kept c t hstart ih =>
    rw [← afterStart?_passed hpassed] at hstart
    rw [locateFrom?_of_no_start htext hstart]
    have hnext := ih (by simp [htext]) hpassed
    simpa using hnext
  | case3 atStart kept c t inner hstart hcontent ih =>
    obtain ⟨head, hhead⟩ := exists_append_of_afterStart? hstart
    have hstatement : upTo inner (c :: t) = head ++ ['<'] := upTo_eq_of_append (by simp [hhead])
    rw [← afterStart?_passed hpassed, hhead] at hstart
    rw [hstatement] at ih
    have hgone :
      passed ++ ((head ++ ['<']).reverse ++ kept).reverse =
        passed ++ kept.reverse ++ (head ++ ['<']) := by
      simp
    rw [hhead] at htext
    have hnext := ih (by rw [htext]; simp) hpassed
    rw [hgone] at hnext
    rw [locateFrom?_of_start htext hstart, hcontent, hstatement]
    exact hnext
  | case4 atStart kept c t inner hstart content rest hcontent site others excerpt =>
    rename_i ih
    obtain ⟨head, body, hstatement, hinner⟩ := exists_statement hstart hcontent
    have hhead : c :: t = head ++ '<' :: inner := by rw [hstatement, hinner]; simp
    have hexcerpt : excerpt = ⟨site.1, site.2, head ++ '<' :: body ++ [';'], content⟩ := by
      simp only [excerpt, upTo_eq_of_append hstatement]
    have hkept : site.1 ++ site.2 = kept.reverse := cutCallSite_append atStart kept
    rw [← afterStart?_passed hpassed, hhead] at hstart
    have hbehind : text = passed ++ kept.reverse ++ (head ++ '<' :: body ++ [';']) ++ rest := by
      rw [htext, hstatement, ← List.append_assoc (passed ++ kept.reverse)]
    rw [hhead] at htext
    have hnext := ih (by rw [List.reverse_nil, List.append_nil]; exact hbehind)
      ⟨passed ++ kept.reverse ++ (head ++ '<' :: body), by simp⟩
    have hstop :
      text.size - rest.size = (passed ++ kept.reverse ++ (head ++ '<' :: body ++ [';'])).size := by
      rw [hbehind, Text.size_append _ rest, Nat.add_sub_cancel]
    rw [List.reverse_nil, List.append_nil, ← hstop] at hnext
    rw [locateFrom?_of_start htext hstart, hcontent, cutCallSite_passed hpassed]
    dsimp only
    rw [hnext, Option.map_some, ofExcerpts_cons, hexcerpt, hstop, ← hkept]
    simp only [ofExcerpt, Excerpt.text, Text.size_append, Nat.add_assoc]
    rfl

/-- The search from the beginning of a text refuses nothing and finds its
    blocks. Neither the receiver nor the text is restricted. -/
theorem locateFrom?_eq_locate (receiver text : Text) :
    locateFrom? receiver text 0 = some (locate receiver text) := by
  have hpassed : Passed true [] := rfl
  have htext : text = [] ++ List.reverse [] ++ text := rfl
  exact locateFrom?_of_dissectFrom htext hpassed

/-- From a place between two characters no operation is refused, in whatever
    order they are made, and none goes back or leaves the places where the text
    can be cut. So no text is refused by the count of braces, by the search for
    blocks or by the edits that put something in the places of the blocks. -/
theorem scanning_never_refused (text : Text) :
    (∀ position operations, (text.from? position).isSome →
      (∀ operation ∈ operations, Operation.OfBytes operation) →
      ∃ trace, Operation.runBytewise? text position operations = some trace ∧
        Operation.run? ⟨text, position⟩ operations =
          some (trace.map fun (answer, next) => (answer, ⟨text, next⟩)) ∧
        trace.length = operations.length ∧ (position :: trace.map (·.2)).IsChain (· ≤ ·) ∧
        ∀ next ∈ trace.map (·.2), next ≤ text.size ∧ (text.from? next).isSome) ∧
      balanceFrom? text 0 0 = some (braceBalance text) ∧
      (∀ receiver, locateFrom? receiver text 0 = some (locate receiver text)) ∧
      ∀ settings lineEnding, ∃ blocks, locateFrom? settings.receiver text 0 = some blocks ∧
        Edit.keepClear (Reference.edits settings lineEnding blocks) = true ∧
        (Edit.applyAll? (Reference.edits settings lineEnding blocks) text).isSome := by
  refine ⟨?_, ?_, ?_, ?_⟩
  · intro position operations hposition hbytes
    exact Operation.exists_trace hposition hbytes
  · have hstart : text.from? 0 = some text := Text.from?_eq_some_iff.2 ⟨[], rfl, rfl⟩
    rw [balanceFrom?_of_from? 0 hstart, Int.zero_add]
  · intro receiver
    exact locateFrom?_eq_locate receiver text
  · intro settings lineEnding
    have hascending := Reference.pairwise_edits_locate settings lineEnding settings.receiver text
    refine ⟨_, locateFrom?_eq_locate settings.receiver text, ?_, ?_⟩
    · exact Edit.keepClear_of_ascending (List.Perm.refl _) (hascending.imp And.left)
        (hascending.imp And.right)
    · rw [Reference.applyAll?_edits_eq_interleave]
      rfl

theorem scanning_never_refused_open :
    let text : Text := "é \x7b\"\\".toList
    let operations : List Operation :=
      [.eat "é".toList, .skipTrivia, .identifier, .findMatching '{' '}']
    let trace : List (Answer × Nat) :=
      [(.eaten true, 2), (.done, 3), (.named none, 3), (.closed none, 6)]
    (text.from? 0).isSome ∧ (∀ operation ∈ operations, Operation.OfBytes operation) ∧
      text.size = 6 ∧
      Operation.runBytewise? text 0 operations = some trace ∧
      Operation.run? ⟨text, 0⟩ operations =
        some (trace.map fun (answer, next) => (answer, ⟨text, next⟩)) := by
  intro text operations trace
  have hbytes : ∀ operation ∈ operations, Operation.OfBytes operation := by decide
  obtain ⟨found, hrun, hcursor, -⟩ :=
    (scanning_never_refused text).1 0 operations (by decide +kernel) hbytes
  have htrace : Operation.runBytewise? text 0 operations = some trace := by decide +kernel
  obtain rfl := Option.some.inj (hrun.symm.trans htrace)
  exact ⟨by decide +kernel, hbytes, by decide +kernel, htrace, hcursor⟩

end

end Block

end EntitySplit
