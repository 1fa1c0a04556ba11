import EntitySplit.Text.Basic

namespace EntitySplit

/-- A civil date and time of day, as a clock on the wall shows it. -/
structure Moment where
  year : Int
  month : Nat
  day : Nat
  hour : Nat
  minute : Nat
  second : Nat
  deriving DecidableEq, Repr

namespace Moment

/-- A year that 4 divides, but not 100 unless 400 does. -/
def isLeap (year : Int) : Bool :=
  year % 4 = 0 && (year % 100 != 0 || year % 400 = 0)

/-- The days of a month of a year in the Gregorian calendar, which is applied
    to all years. -/
def daysIn (year : Int) (month : Nat) : Nat :=
  if month = 2 then (if isLeap year then 29 else 28)
  else if month = 4 ∨ month = 6 ∨ month = 9 ∨ month = 11 then 30
  else 31

/-- The first year that is counted. -/
def firstYear : Int := -262143

/-- The last year that is counted. -/
def lastYear : Int := 262142

/-- Whether the date exists and the time is one of a day. -/
def isValid (moment : Moment) : Bool :=
  firstYear ≤ moment.year && moment.year ≤ lastYear && 1 ≤ moment.month && moment.month ≤ 12 &&
    1 ≤ moment.day && moment.day ≤ daysIn moment.year moment.month &&
    moment.hour < 24 && moment.minute < 60 && moment.second < 60

/-- A number in at least `width` digits. -/
def padded (width number : Nat) : Text :=
  let digits := Nat.toDigits 10 number
  List.replicate (width - digits.length) '0' ++ digits

/-- A year in at least four digits, with a sign if four do not hold it. -/
def yearText (year : Int) : Text :=
  if year < 0 then '-' :: padded 4 year.natAbs
  else if 9999 < year then '+' :: padded 4 year.natAbs
  else padded 4 year.natAbs

/-- Year, month, day, hour, minute and second in fixed width, so that for the
    years 0 to 9999 stamps sort as their moments do. -/
def stamp (moment : Moment) : Text :=
  yearText moment.year ++ padded 2 moment.month ++ padded 2 moment.day ++ padded 2 moment.hour ++
    padded 2 moment.minute ++ padded 2 moment.second

end Moment

end EntitySplit
