import EntitySplit.Toml.Blank

namespace EntitySplit

namespace Toml

def hexDigit? (c : Char) : Option Nat :=
  if '0' ≤ c ∧ c ≤ '9' then some (c.toNat - '0'.toNat)
  else if 'a' ≤ c ∧ c ≤ 'f' then some (c.toNat - 'a'.toNat + 10)
  else if 'A' ≤ c ∧ c ≤ 'F' then some (c.toNat - 'A'.toNat + 10)
  else none

/-- The number that hexadecimal digits write. -/
def hexNumber? (digits : Text) : Option Nat :=
  digits.foldlM (fun number c => (hexDigit? c).map (number * 16 + ·)) 0

/-- The character with the code that `count` hexadecimal digits give. -/
def coded? (count : Nat) (t : Text) : Option (Char × Text) :=
  if t.length < count then none
  else
    (hexNumber? (t.take count)).bind fun code =>
      if code.isValidChar then some (Char.ofNat code, t.drop count) else none

/-- The character that follows a backslash stands for. -/
def escape? : Text → Option (Char × Text)
  | 'b' :: t => some ('\x08', t)
  | 't' :: t => some ('\t', t)
  | 'n' :: t => some ('\n', t)
  | 'f' :: t => some ('\x0c', t)
  | 'r' :: t => some ('\r', t)
  | 'e' :: t => some ('\x1b', t)
  | '"' :: t => some ('"', t)
  | '\\' :: t => some ('\\', t)
  | 'x' :: t => coded? 2 t
  | 'u' :: t => coded? 4 t
  | 'U' :: t => coded? 8 t
  | _ => none

/-- The rest of a string on one line after its first quote. Each round takes a
    character of the text, so `rounds` need not exceed the length. -/
def lineString? (quote : Char) (rounds : Nat) (read : Text) : Text → Option (Text × Text)
  | [] => none
  | c :: t =>
    match rounds with
    | 0 => none
    | rounds + 1 =>
      if c = quote then some (read.reverse, t)
      else if c = '\\' ∧ quote = '"' then
        (escape? t).bind fun (escaped, rest) => lineString? quote rounds (escaped :: read) rest
      else if isPrintable c then lineString? quote rounds (c :: read) t
      else none

/-- What follows a backslash at the end of a line, with the white space that it
    takes along. -/
def joinedLine? (t : Text) : Option Text :=
  (lineBreak? (skipSpaces t)).map skipEmptyLines

/-- The rest of a string on several lines after its first quotes. Up to two
    quotes before the last three belong to the string. -/
def linesString? (quote : Char) (rounds : Nat) (read : Text) : Text → Option (Text × Text)
  | [] => none
  | c :: t =>
    match rounds with
    | 0 => none
    | rounds + 1 =>
      if c = quote then
        let quotes := ((c :: t).takeWhile (· = quote)).length
        if quotes < 3 then linesString? quote rounds (c :: read) t
        else
          let closing := min quotes 5
          some (read.reverse ++ List.replicate (closing - 3) quote, (c :: t).drop closing)
      else if c = '\\' ∧ quote = '"' then
        match joinedLine? t with
        | some rest => linesString? quote rounds read rest
        | none =>
          (escape? t).bind fun (escaped, rest) => linesString? quote rounds (escaped :: read) rest
      else if isPrintable c then linesString? quote rounds (c :: read) t
      else
        match lineBreak? (c :: t) with
        | some rest =>
          if c = '\r' then linesString? quote rounds ('\n' :: c :: read) rest
          else linesString? quote rounds (c :: read) rest
        | none => none

/-- The string on one line at the beginning of a text. -/
def lineStringOf? : Text → Option (Text × Text)
  | '"' :: t => lineString? '"' (t.length + 1) [] t
  | '\'' :: t => lineString? '\'' (t.length + 1) [] t
  | _ => none

/-- The string at the beginning of a text: in double quotes with escapes or in
    single quotes without, on one line or, in three quotes, on several. A line
    break just after three quotes does not count. -/
def string? : Text → Option (Text × Text)
  | '"' :: '"' :: '"' :: t => linesString? '"' (t.length + 1) [] ((lineBreak? t).getD t)
  | '\'' :: '\'' :: '\'' :: t => linesString? '\'' (t.length + 1) [] ((lineBreak? t).getD t)
  | t => lineStringOf? t

end Toml

end EntitySplit
