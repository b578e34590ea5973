import Arrange.Number.Binary
import Arrange.Text.Basic

/-!
# Dates

A date is its time in milliseconds from the start of 1970, NaN when the date is invalid.
`Calendar.clip` says which times there are, and `Calendar.spelled` writes a date in universal
time by the Gregorian calendar, which is used for all years.
-/

set_option autoImplicit false

namespace Arrange.Calendar

/-! ## Times -/

/-- The farthest time from the start of 1970, in milliseconds. -/
def limit : Nat := 8640000000000000

/-- The time of a date made from any number: the whole part, or NaN beyond the limit. -/
def clip (x : Float) : Float :=
  if x.isFinite && (Number.truncate x).natAbs ≤ limit then Number.ofInt (Number.truncate x)
  else Number.nan

/-! ## Days -/

/-- A day of the Gregorian calendar; year 0 is the year before year 1. -/
structure Day where
  year : Int
  month : Nat
  day : Nat

/-- The day that lies `n` days after the first of January 1970. Years are counted from March, so
that a leap day is the last day of its year, in eras of 400 years or 146097 days. -/
def dayOf (n : Int) : Day :=
  let z := n + 719468
  let era := z.fdiv 146097
  let dayOfEra := (z - era * 146097).toNat
  let yearOfEra :=
    (dayOfEra - dayOfEra / 1460 + dayOfEra / 36524 - dayOfEra / 146096) / 365
  let dayOfYear := dayOfEra - (365 * yearOfEra + yearOfEra / 4 - yearOfEra / 100)
  let fromMarch := (5 * dayOfYear + 2) / 153
  let day := dayOfYear - (153 * fromMarch + 2) / 5 + 1
  let month := if fromMarch < 10 then fromMarch + 3 else fromMarch - 9
  ⟨(yearOfEra : Int) + era * 400 + (if month ≤ 2 then 1 else 0), month, day⟩

/-- The name of a weekday, counted from Thursday, the first day of 1970. -/
def weekdayName (n : Int) : String :=
  match n.fmod 7 with
  | 0 => "Thu"
  | 1 => "Fri"
  | 2 => "Sat"
  | 3 => "Sun"
  | 4 => "Mon"
  | 5 => "Tue"
  | _ => "Wed"

/-- The name of a month. -/
def monthName : Nat → String
  | 1 => "Jan"
  | 2 => "Feb"
  | 3 => "Mar"
  | 4 => "Apr"
  | 5 => "May"
  | 6 => "Jun"
  | 7 => "Jul"
  | 8 => "Aug"
  | 9 => "Sep"
  | 10 => "Oct"
  | 11 => "Nov"
  | _ => "Dec"

/-! ## Spelling -/

/-- Decimal digits, with zeros in front up to the given width. -/
def padded (width n : Nat) : Text :=
  let digits := Text.ofNat n
  List.replicate (width - digits.length) 0x30 ++ digits

/-- The text of a year: four digits at least, after a minus sign when it is negative. -/
def yearText (year : Int) : Text :=
  (if year < 0 then Text.ofString "-" else []) ++ padded 4 year.natAbs

/-- The text of a whole number of milliseconds from the start of 1970. -/
def spelledTime (time : Int) : Text :=
  let days := time.fdiv 86400000
  let seconds := ((time - days * 86400000) / 1000).toNat
  let day := dayOf days
  Text.ofString (weekdayName days) ++ Text.ofString " " ++ Text.ofString (monthName day.month) ++
    Text.ofString " " ++ padded 2 day.day ++ Text.ofString " " ++ yearText day.year ++
    Text.ofString " " ++ padded 2 (seconds / 3600) ++ Text.ofString ":" ++
    padded 2 (seconds / 60 % 60) ++ Text.ofString ":" ++ padded 2 (seconds % 60) ++
    Text.ofString " GMT+0000 (Coordinated Universal Time)"

/-- The text of a date. -/
def spelled (time : Float) : Text :=
  if time.isFinite then spelledTime (Number.truncate time) else Text.ofString "Invalid Date"

end Arrange.Calendar
