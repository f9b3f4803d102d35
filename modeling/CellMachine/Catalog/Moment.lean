import CellMachine.Text.Digits

/-!
# Moments in catalogs

Moments are counted in seconds since the start of 1970 and shown as a date and a time of day in
universal time.
-/

namespace CellMachine.Catalog

/-- The year, month and day of the day with a number; day zero is the first of January 1970. Years
are counted from the first of March, so that a leap day is the last of its year. -/
def civilDate (day : Int) : Int × Int × Int :=
  let shifted := day + 719468
  let era := shifted.fdiv 146097
  let dayOfEra := shifted.fmod 146097
  let yearOfEra := (dayOfEra - dayOfEra / 1460 + dayOfEra / 36524 - dayOfEra / 146096) / 365
  let dayOfYear := dayOfEra - (365 * yearOfEra + yearOfEra / 4 - yearOfEra / 100)
  let shiftedMonth := (5 * dayOfYear + 2) / 153
  let month := if shiftedMonth < 10 then shiftedMonth + 3 else shiftedMonth - 9
  let year := yearOfEra + 400 * era + if month ≤ 2 then 1 else 0
  (year, month, dayOfYear - (153 * shiftedMonth + 2) / 5 + 1)

/-- A moment as date and time of day. -/
def momentText (seconds : Int) : String :=
  let (year, month, day) := civilDate (seconds.fdiv 86400)
  let second := seconds.fmod 86400
  let pad (width : Nat) (n : Int) := Text.padLeft '0' width (toString n)
  pad 4 year ++ "-" ++ pad 2 month ++ "-" ++ pad 2 day ++ " " ++ pad 2 (second / 3600) ++ ":" ++
    pad 2 (second / 60 % 60) ++ ":" ++ pad 2 (second % 60)

end CellMachine.Catalog
