import BenchLedger.Decimal.Digits

/-!
# Dates and times

Moments of the proleptic Gregorian calendar to the nanosecond, as a clock shows them, and the stamps
under which a capture is filed. A leap second is told by a count of nanoseconds that does not fit
into one second; it shows only as one more on the second.
-/

namespace BenchLedger

open Decimal

/-- A day of the proleptic Gregorian calendar. -/
structure Date where
  /-- The astronomical year: year 0 precedes year 1. -/
  year : Int
  month : Nat
  day : Nat
  deriving DecidableEq

namespace Date

/-- The day that follows 1 January 1970 by a number of days. Years are counted from March here, so
that the leap day is the last of its year. -/
def ofDayNumber (n : Int) : Date :=
  let shifted := n + 719468
  let era := shifted / 146097
  let dayOfEra := (shifted % 146097).toNat
  let yearOfEra := (dayOfEra - dayOfEra / 1460 + dayOfEra / 36524 - dayOfEra / 146096) / 365
  let dayOfYear := dayOfEra - (365 * yearOfEra + yearOfEra / 4 - yearOfEra / 100)
  let march := (5 * dayOfYear + 2) / 153
  let month := if march < 10 then march + 3 else march - 9
  { year := yearOfEra + era * 400 + (if month ≤ 2 then 1 else 0)
    month
    day := dayOfYear - (153 * march + 2) / 5 + 1 }

end Date

/-- A date and a time of day. -/
structure Moment where
  date : Date
  second : Nat
  /-- Nanoseconds since the second began; from `10 ^ 9` on, those of a leap second. -/
  nano : Nat
  deriving DecidableEq

namespace Moment

/-- What a clock shows some nanoseconds after it showed the start of 1970. -/
def ofUnix (nanos : Int) : Moment :=
  let seconds := nanos / 1000000000
  ⟨.ofDayNumber (seconds / 86400), (seconds % 86400).toNat, (nanos % 1000000000).toNat⟩

def hour (m : Moment) : Nat := m.second / 3600

def minute (m : Moment) : Nat := m.second / 60 % 60

/-- The second shown by the clock, one more during a leap second. -/
def shownSecond (m : Moment) : Nat := m.second % 60 + m.nano / 1000000000

/-- A year in four digits, or with its sign and at least four digits outside 0 to 9999. -/
def yearText (year : Int) : List Char :=
  if 0 ≤ year ∧ year ≤ 9999 then padded 4 year.toNat
  else (if year < 0 then '-' else '+') :: padded 4 year.natAbs

theorem mem_yearText {year : Int} {c : Char} (h : c ∈ yearText year) :
    c.isDigit = true ∨ c = '-' ∨ c = '+' := by
  unfold yearText at h
  split at h
  · exact .inl (isDigit_of_mem_padded h)
  · rcases List.mem_cons.1 h with rfl | h
    · right
      split
      · exact .inl rfl
      · exact .inr rfl
    · exact .inl (isDigit_of_mem_padded h)

/-- The date as `2026-10-16`. -/
def dayText (m : Moment) : List Char :=
  yearText m.date.year ++ '-' :: padded 2 m.date.month ++ '-' :: padded 2 m.date.day

/-- The time of day as `09:30`. -/
def clockText (m : Moment) : List Char := padded 2 m.hour ++ ':' :: padded 2 m.minute

/-- The stamp of a ledger row, `2026-10-16 09:30`. -/
def rowStamp (m : Moment) : List Char := m.dayText ++ ' ' :: m.clockText

/-- The stamp of a file name, `20261016_093000`. -/
def fileStamp (m : Moment) : List Char :=
  yearText m.date.year ++ padded 2 m.date.month ++ padded 2 m.date.day ++
    '_' :: padded 2 m.hour ++ padded 2 m.minute ++ padded 2 m.shownSecond

/-- A fraction of a second in as many groups of three digits as it needs. -/
def fractionText (nano : Nat) : List Char :=
  if nano = 0 then []
  else if nano % 1000000 = 0 then '.' :: padded 3 (nano / 1000000)
  else if nano % 1000 = 0 then '.' :: padded 6 (nano / 1000)
  else '.' :: padded 9 nano

/-- How far a clock is ahead of universal time, to the nearest minute, as `+02:00`. -/
def offsetText (offset : Int) : List Char :=
  let minutes := (offset.natAbs + 30) / 60
  (if offset < 0 then '-' else '+') :: padded 2 (minutes / 60) ++ ':' :: padded 2 (minutes % 60)

/-- A moment on a clock that is some seconds ahead of universal time, as
`2026-10-16T09:30:00+02:00`. -/
def zonedText (m : Moment) (offset : Int) : List Char :=
  m.dayText ++ 'T' :: m.clockText ++ ':' :: padded 2 m.shownSecond ++
    fractionText (m.nano % 1000000000) ++ offsetText offset

example : zonedText ⟨⟨2026, 10, 16⟩, 34200, 0⟩ (-12630) = "2026-10-16T09:30:00-03:31".toList := by
  decide

end Moment

end BenchLedger
