/-!
Moments of time as text, in the proleptic Gregorian calendar.
-/

namespace Rpm.Text

def padded (width n : Nat) : String :=
  let digits := Nat.toDigits 10 n
  String.ofList (List.replicate (width - digits.length) '0' ++ digits)

/-- The year, the month and the day of the month that are a number of days after 1970-01-01. Years
are counted from a March, so that the leap day is the last one. -/
def civilDate (days : Nat) : Nat × Nat × Nat :=
  -- 719468 days lie between 0000-03-01 and 1970-01-01, and 146097 in four centuries
  let days := days + 719468
  let ofEra := days % 146097
  let yearOfEra := (ofEra - ofEra / 1460 + ofEra / 36524 - ofEra / 146096) / 365
  let ofYear := ofEra - (365 * yearOfEra + yearOfEra / 4 - yearOfEra / 100)
  let month := (5 * ofYear + 2) / 153
  let day := ofYear - (153 * month + 2) / 5 + 1
  let year := yearOfEra + 400 * (days / 146097)
  if month < 10 then (year, month + 3, day) else (year + 1, month - 9, day)

/-- The moment a number of seconds after the start of 1970, in universal time. -/
def timestamp (seconds : Nat) : String :=
  let (year, month, day) := civilDate (seconds / 86400)
  let clock := seconds % 86400
  padded 4 year ++ "-" ++ padded 2 month ++ "-" ++ padded 2 day ++ "T" ++ padded 2 (clock / 3600) ++
    ":" ++ padded 2 (clock / 60 % 60) ++ ":" ++ padded 2 (clock % 60) ++ "+00:00"

end Rpm.Text
