import EntitySplit.Toml.Value

namespace EntitySplit

namespace Toml

/-- The value of a digit, in any base up to 16. -/
def digit? (base : Nat) (c : Char) : Option Nat :=
  let value :=
    if '0' ≤ c ∧ c ≤ '9' then c.toNat - '0'.toNat
    else if 'a' ≤ c ∧ c ≤ 'f' then c.toNat - 'a'.toNat + 10
    else if 'A' ≤ c ∧ c ≤ 'F' then c.toNat - 'A'.toNat + 10
    else 16
  if value < base then some value else none

/-- The digits of a text in which single underscores may stand between two
    digits. -/
def digits? (base : Nat) : Text → Option (List Nat)
  | [] => none
  | [c] => (digit? base c).map ([·])
  | c :: '_' :: t => (digit? base c).bind fun value => (digits? base t).map (value :: ·)
  | c :: t => (digit? base c).bind fun value => (digits? base t).map (value :: ·)

def ofDigits (base : Nat) (digits : List Nat) : Nat :=
  digits.foldl (fun number digit => number * base + digit) 0

/-- Whether decimal digits begin with a zero that they do not need. -/
def padsWithZero : List Nat → Bool
  | 0 :: _ :: _ => true
  | _ => false

/-- A sign, if there is one, and the rest. -/
def cutSign : Text → Bool × Text
  | '-' :: t => (true, t)
  | '+' :: t => (false, t)
  | t => (false, t)

/-- An integer with its sign. -/
def decimal? (t : Text) : Option Int :=
  let (negative, t) := cutSign t
  (digits? 10 t).bind fun digits =>
    if padsWithZero digits then none
    else some (if negative then -(ofDigits 10 digits : Int) else ofDigits 10 digits)

/-- An integer in any base; only a decimal one has a sign. -/
def wholeNumber? : Text → Option Int
  | '0' :: 'x' :: t => (digits? 16 t).map fun digits => ofDigits 16 digits
  | '0' :: 'o' :: t => (digits? 8 t).map fun digits => ofDigits 8 digits
  | '0' :: 'b' :: t => (digits? 2 t).map fun digits => ofDigits 2 digits
  | t => decimal? t

/-- An integer, in any of the four bases, of at most 128 bits. -/
def integer? (t : Text) : Option Value :=
  (wholeNumber? t).bind fun value =>
    if -(Nat.pow 2 127 : Int) ≤ value ∧ value < Nat.pow 2 128 then some (.integer value) else none

/-- Whether `mantissa * 10 ^ exponent` rounds to no finite float of 64 bits.
    The order of the number decides most cases, so that large powers are not
    computed for them. -/
def overflows (mantissa : Nat) (exponent : Int) : Bool :=
  let order := (Nat.toDigits 10 mantissa).length + exponent
  if mantissa = 0 ∨ order < 300 then false
  else if 320 < order then true
  else if 0 ≤ exponent then Nat.pow 2 1024 - Nat.pow 2 970 ≤ mantissa * Nat.pow 10 exponent.toNat
  else (Nat.pow 2 1024 - Nat.pow 2 970) * Nat.pow 10 (-exponent).toNat ≤ mantissa

/-- The digits after an exponent mark, with their sign. -/
def exponent? : Text → Option Int
  | [] => some 0
  | _ :: t =>
    let (negative, t) := cutSign t
    (digits? 10 t).map fun digits => if negative then -(ofDigits 10 digits : Int)
      else ofDigits 10 digits

/-- The digits after a decimal point. -/
def fraction? : Text → Option (List Nat)
  | [] => some []
  | _ :: t => digits? 10 t

def isExponentMark (c : Char) : Bool :=
  c = 'e' || c = 'E'

/-- A float: digits, then a fraction or an exponent or both. One that is so
    large that no finite one is near it is refused. -/
def float? (t : Text) : Option Value := do
  let (_, magnitude) := cutSign t
  if magnitude = "inf".toList ∨ magnitude = "nan".toList then return .float t
  let mantissa := magnitude.takeWhile (!isExponentMark ·)
  let whole ← digits? 10 (mantissa.takeWhile (· != '.'))
  let fraction ← fraction? (mantissa.dropWhile (· != '.'))
  let exponent ← exponent? (magnitude.dropWhile (!isExponentMark ·))
  if padsWithZero whole ∨ mantissa = magnitude ∧ '.' ∉ mantissa then none
  if overflows (ofDigits 10 (whole ++ fraction)) (exponent - fraction.length) then none
  return .float t

end Toml

end EntitySplit
