import Compliance.Text.Digits

/-! # Dates and times of day

Proleptic Gregorian dates and date-times with microseconds and an optional offset from UTC.

* `Date.of?`, `DateTime.of?`: the only checked ways to a date; the fault names the first field that
  is out of range, the largest unit first.
* `DateTime.instant`: the microseconds of a date-time on the UTC line, for comparing date-times
  whose offsets differ.
* `Date.text`, `DateTime.text`: four-digit years, a fraction of six digits where it is not zero, and
  the offset where there is one.
-/

namespace Compliance

/-- Why the fields of a date-time do not make one. -/
inductive CalendarFault where
  | year (given : Nat)
  | month
  | day
  | hour
  | minute
  | second
  | offset (seconds : Int)
deriving DecidableEq, Repr

/-- A day of the calendar. -/
structure Date where
  year : Nat
  month : Nat
  day : Nat
deriving DecidableEq, Repr

/-- A day, a time of that day, and the offset of the clock from UTC in seconds if it is known. -/
structure DateTime where
  date : Date
  hour : Nat
  minute : Nat
  second : Nat
  microsecond : Nat
  offset : Option Int
deriving DecidableEq, Repr

def daysInMonth (year month : Nat) : Nat :=
  if month = 2 then
    if year % 4 = 0 ∧ (year % 100 ≠ 0 ∨ year % 400 = 0) then 29 else 28
  else if month = 4 ∨ month = 6 ∨ month = 9 ∨ month = 11 then 30
  else 31

namespace Date

/-- The date with the given fields, years 1 to 9999. -/
def of? (year month day : Nat) : Except CalendarFault Date :=
  if year = 0 ∨ 9999 < year then .error (.year year)
  else if month = 0 ∨ 12 < month then .error .month
  else if day = 0 ∨ daysInMonth year month < day then .error .day
  else .ok ⟨year, month, day⟩

/-- The days of the years before `year`, of the months before `month`, and of the month. -/
def ordinal (d : Date) : Nat :=
  let y := d.year - 1
  let months := (List.range' 1 (d.month - 1)).map (daysInMonth d.year)
  365 * y + y / 4 - y / 100 + y / 400 + months.foldl (· + ·) 0 + d.day

/-- The date as year, month and day between hyphens. -/
def text (d : Date) : String :=
  Text.padded 4 d.year ++ "-" ++ Text.padded 2 d.month ++ "-" ++ Text.padded 2 d.day

end Date

namespace DateTime

def daySeconds : Nat := 86400

/-- The date-time with the given fields; an offset is less than a day either way, and is judged
before the other fields. -/
def of? (year month day hour minute second microsecond : Nat) (offset : Option Int) :
    Except CalendarFault DateTime := do
  if let some o := offset then
    if daySeconds ≤ o.natAbs then throw (.offset o)
  let date ← Date.of? year month day
  if 23 < hour then throw .hour
  if 59 < minute then throw .minute
  if 59 < second then throw .second
  pure ⟨date, hour, minute, second, microsecond, offset⟩

/-- The microseconds of the clock's reading since the first day of the calendar. -/
def reading (t : DateTime) : Int :=
  let seconds := t.date.ordinal * daySeconds + t.hour * 3600 + t.minute * 60 + t.second
  (seconds * 1000000 + t.microsecond : Nat)

/-- The microseconds on the UTC line of a date-time whose offset is known. -/
def instant (t : DateTime) (offset : Int) : Int := t.reading - offset * 1000000

/-- An offset as sign, hours and minutes, with seconds where they are not zero. -/
def offsetText (offset : Int) : String :=
  let n := offset.natAbs
  let sign := if offset < 0 then "-" else "+"
  let seconds := if n % 60 = 0 then "" else ":" ++ Text.padded 2 (n % 60)
  sign ++ Text.padded 2 (n / 3600) ++ ":" ++ Text.padded 2 (n / 60 % 60) ++ seconds

/-- The date, `separator`, the time of day, and the offset if it is known. -/
def textWith (separator : String) (t : DateTime) : String :=
  let clock := ":".intercalate ([t.hour, t.minute, t.second].map (Text.padded 2))
  let fraction := if t.microsecond = 0 then "" else "." ++ Text.padded 6 t.microsecond
  t.date.text ++ separator ++ clock ++ fraction ++ (t.offset.map offsetText).getD ""

/-- The date-time with a blank between date and time of day. -/
def text (t : DateTime) : String := t.textWith " "

end DateTime

/-- A length of time in whole days and the seconds of the day left over, the days rounded down. -/
def durationText (seconds : Int) : String :=
  let days := Int.fdiv seconds DateTime.daySeconds
  let rest := Int.fmod seconds DateTime.daySeconds
  let fields :=
    (if days = 0 then [] else ["days=" ++ toString days]) ++
    (if rest = 0 then [] else ["seconds=" ++ toString rest])
  "datetime.timedelta(" ++ (if fields.isEmpty then "0" else ", ".intercalate fields) ++ ")"

def CalendarFault.message : CalendarFault → String
  | .year given => "year " ++ toString given ++ " is out of range"
  | .month => "month must be in 1..12"
  | .day => "day is out of range for month"
  | .hour => "hour must be in 0..23"
  | .minute => "minute must be in 0..59"
  | .second => "second must be in 0..59"
  | .offset seconds =>
    "offset must be a timedelta strictly between -timedelta(hours=24) and timedelta(hours=24), not "
      ++ durationText seconds ++ "."

end Compliance
