/-! # Instants and the civil calendar

An instant is a count of seconds since the start of 1970 in UTC and a part of a second in
nanoseconds. A leap second is told by a part of a second that has reached a whole one, on the last
second of a minute. Days are counted in the proleptic Gregorian calendar, whose pattern repeats every
400 years; within such an era the years are taken to begin in March, so that the leap day comes last.
-/

namespace SqlMarshal

/-- An instant of time in UTC. -/
structure Timestamp where
  seconds : Int
  nanos : Nat
  deriving DecidableEq, Repr

/-- A day of the calendar. -/
structure Date where
  year : Int
  month : Nat
  day : Nat
  deriving DecidableEq, Repr

namespace Date

def isLeapYear (year : Int) : Bool :=
  decide (year % 4 = 0 ∧ (year % 100 ≠ 0 ∨ year % 400 = 0))

def monthLength (year : Int) (month : Nat) : Nat :=
  if month = 2 then (if isLeapYear year then 29 else 28)
  else if month = 4 ∨ month = 6 ∨ month = 9 ∨ month = 11 then 30
  else 31

/-- The first and the last year that dates are counted in. -/
def yearRange : Int × Int := (-262143, 262142)

def isValid (date : Date) : Bool :=
  decide (yearRange.1 ≤ date.year ∧ date.year ≤ yearRange.2 ∧ 1 ≤ date.month ∧ date.month ≤ 12 ∧
    1 ≤ date.day ∧ date.day ≤ monthLength date.year date.month)

/-- The number of days from the start of 1970 to a date. -/
def toDays (date : Date) : Int :=
  let year := if date.month ≤ 2 then date.year - 1 else date.year
  let era := year / 400
  let yearOfEra := year % 400
  let monthFromMarch := (date.month + 9) % 12
  let dayOfYear : Int := ((153 * monthFromMarch + 2) / 5 + date.day : Nat) - 1
  let dayOfEra := yearOfEra * 365 + yearOfEra / 4 - yearOfEra / 100 + dayOfYear
  era * 146097 + dayOfEra - 719468

/-- The date that lies a number of days after the start of 1970. -/
def ofDays (days : Int) : Date :=
  let shifted := days + 719468
  let era := shifted / 146097
  let dayOfEra := (shifted % 146097).toNat
  let yearOfEra := (dayOfEra - dayOfEra / 1460 + dayOfEra / 36524 - dayOfEra / 146096) / 365
  let dayOfYear := dayOfEra - (365 * yearOfEra + yearOfEra / 4 - yearOfEra / 100)
  let monthFromMarch := (5 * dayOfYear + 2) / 153
  let month := if monthFromMarch < 10 then monthFromMarch + 3 else monthFromMarch - 9
  let year := era * 400 + yearOfEra
  { year := if month ≤ 2 then year + 1 else year
    month
    day := dayOfYear - (153 * monthFromMarch + 2) / 5 + 1 }

end Date

/-- A date and a time of day on a clock that is `offset` seconds ahead of UTC. Second 60 is a leap
second. -/
structure ClockReading where
  date : Date
  hour : Nat
  minute : Nat
  second : Nat
  nanos : Nat
  offset : Int
  deriving DecidableEq, Repr

namespace ClockReading

/-- The instant a clock shows, if its date, its time and the date in UTC exist and the offset is less
than a day. -/
def toTimestamp? (reading : ClockReading) : Option Timestamp :=
  if reading.date.isValid ∧ reading.hour ≤ 23 ∧ reading.minute ≤ 59 ∧ reading.second ≤ 60 ∧
      reading.offset.natAbs < 86400 then
    let leap := reading.second = 60
    let second := if leap then 59 else reading.second
    let ofDay := reading.hour * 3600 + reading.minute * 60 + second
    let seconds := reading.date.toDays * 86400 + ofDay - reading.offset
    if (Date.ofDays (seconds / 86400)).isValid then
      some ⟨seconds, if leap then 1000000000 + reading.nanos else reading.nanos⟩
    else
      none
  else
    none

end ClockReading

/-- The reading of a clock in UTC at an instant. -/
def Timestamp.toClock (t : Timestamp) : ClockReading :=
  let ofDay := (t.seconds % 86400).toNat
  let leap := 1000000000 ≤ t.nanos
  { date := Date.ofDays (t.seconds / 86400)
    hour := ofDay / 3600
    minute := ofDay / 60 % 60
    second := if leap then ofDay % 60 + 1 else ofDay % 60
    nanos := if leap then t.nanos - 1000000000 else t.nanos
    offset := 0 }

end SqlMarshal
