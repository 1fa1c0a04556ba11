import EntitySplit.Backup.Stamp
import EntitySplit.Toml.Number

namespace EntitySplit

namespace Toml

/-- A number of exactly `count` digits. -/
def fixedNumber? (count : Nat) (t : Text) : Option (Nat × Text) :=
  let digits := t.take count
  if digits.length = count ∧ digits.all Char.isDigit then
    some (ofDigits 10 (digits.map fun c => c.toNat - '0'.toNat), t.drop count)
  else
    none

/-- What follows a date that exists. -/
def afterDate? (t : Text) : Option Text := do
  let (year, t) ← fixedNumber? 4 t
  let t ← Text.after? ['-'] t
  let (month, t) ← fixedNumber? 2 t
  let t ← Text.after? ['-'] t
  let (day, t) ← fixedNumber? 2 t
  if 1 ≤ month ∧ month ≤ 12 ∧ 1 ≤ day ∧ day ≤ Moment.daysIn year month then some t else none

/-- What follows seconds and their fraction, if they are there. -/
def afterSeconds? (t : Text) : Option Text :=
  match Text.after? [':'] t with
  | none => some t
  | some t => do
    let (second, t) ← fixedNumber? 2 t
    if 60 < second then none
    match t with
    | '.' :: c :: rest => if c.isDigit then some (rest.dropWhile Char.isDigit) else none
    | '.' :: [] => none
    | t => some t

/-- What follows a time of day. -/
def afterTime? (t : Text) : Option Text := do
  let (hour, t) ← fixedNumber? 2 t
  let t ← Text.after? [':'] t
  let (minute, t) ← fixedNumber? 2 t
  if hour < 24 ∧ minute < 60 then afterSeconds? t else none

/-- Whether a text is an offset from universal time, or nothing. -/
def isOffset : Text → Bool
  | [] => true
  | ['Z'] => true
  | ['z'] => true
  | c :: t =>
    (c = '+' || c = '-') &&
      match fixedNumber? 2 t with
      | some (hour, ':' :: rest) =>
        match fixedNumber? 2 rest with
        | some (minute, []) => hour < 24 && minute < 60
        | _ => false
      | _ => false

/-- A date, a time of day or both, and with both an offset from universal time.
    The whole text has to be read, and the value is the text itself. -/
def dateTime? (t : Text) : Option Value :=
  match afterDate? t with
  | some [] => some (.dateTime t)
  | some (c :: rest) =>
    if c = 'T' ∨ c = 't' ∨ c = ' ' then
      (afterTime? rest).bind fun offset => if isOffset offset then some (.dateTime t) else none
    else
      none
  | none => (afterTime? t).bind fun rest => if rest.isEmpty then some (.dateTime t) else none

end Toml

end EntitySplit
