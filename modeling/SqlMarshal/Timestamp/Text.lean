import SqlMarshal.Decimal.Integer
import SqlMarshal.Decimal.Power
import SqlMarshal.Text.Blank
import SqlMarshal.Timestamp.Basic

/-! # The text of instants

Instants are written in the format of Internet timestamps: date, `T`, time of day, a fraction of
three, six or nine digits when it is not zero, and the offset from UTC. Years outside 0 to 9999 carry
a sign. Two readers take such text. The strict one wants every field at its full width. The lenient
one, used inside JSON documents, also takes short fields, signed years, blanks before fields and
separators, and `UTC` for the offset.
-/

namespace SqlMarshal.Timestamp

/-! ## Writing -/

/-- A year: four digits, or a sign and at least four digits. -/
def writeYear (year : Int) : List Char :=
  if 0 ≤ year ∧ year ≤ 9999 then
    Decimal.writePadded 4 year.toNat
  else
    (if year < 0 then '-' else '+') :: Decimal.writePadded 4 year.natAbs

/-- The shortest of no digits, three, six and nine that shows a part of a second in full. -/
def writeFraction (nanos : Nat) : List Char :=
  if nanos = 0 then []
  else if nanos % 1000000 = 0 then '.' :: Decimal.writePadded 3 (nanos / 1000000)
  else if nanos % 1000 = 0 then '.' :: Decimal.writePadded 6 (nanos / 1000)
  else '.' :: Decimal.writePadded 9 nanos

/-- The text of an instant with a given spelling of the offset of UTC. -/
def textWithOffset (offset : List Char) (t : Timestamp) : String :=
  let clock := t.toClock
  String.ofList <|
    writeYear clock.date.year ++ '-' :: Decimal.writePadded 2 clock.date.month
      ++ '-' :: Decimal.writePadded 2 clock.date.day
      ++ 'T' :: Decimal.writePadded 2 clock.hour
      ++ ':' :: Decimal.writePadded 2 clock.minute
      ++ ':' :: Decimal.writePadded 2 clock.second
      ++ writeFraction clock.nanos ++ offset

/-- The text form of an instant, with a numeric offset. -/
def text (t : Timestamp) : String :=
  textWithOffset ['+', '0', '0', ':', '0', '0'] t

/-- The text of an instant inside documents and descriptions, with the letter for UTC. -/
def zuluText (t : Timestamp) : String :=
  textWithOffset ['Z'] t

/-! ## Reading -/

/-- A reader takes characters from the front of a text or fails. -/
abbrev Reader := StateT (List Char) Option

namespace Reader

/-- At least `least` and at most `most` digits; the rest stays. -/
def digits (least most : Nat) : Reader (List Char) := fun text =>
  let found := (text.take most).takeWhile Char.isDigit
  if least ≤ found.length then some (found, text.drop found.length) else none

def number (least most : Nat) : Reader Nat :=
  return Nat.ofDigitChars 10 (← digits least most) 0

def oneOf (allowed : List Char) : Reader Char
  | c :: rest => if c ∈ allowed then some (c, rest) else none
  | [] => none

/-- Whether the text goes on with a character of a set, which is then taken. -/
def optional (allowed : List Char) : Reader (Option Char)
  | c :: rest => if c ∈ allowed then some (some c, rest) else some (none, c :: rest)
  | [] => some (none, [])

/-- Leaves out the longest run of characters of a class. -/
def skipWhile (skipped : Char → Bool) : Reader Unit :=
  modify (List.dropWhile skipped)

def atEnd : Reader Unit
  | [] => some ((), [])
  | _ :: _ => none

end Reader

open Reader

/-- A part of a second after its point: nine digits count and the others are left out. -/
def readFraction : Reader Nat := do
  match ← optional ['.'] with
  | none => return 0
  | some _ =>
    let found ← digits 1 9
    skipWhile Char.isDigit
    return Nat.ofDigitChars 10 found 0 * tenTo (9 - found.length)

/-- A numeric offset in seconds: a sign, two digits of hours, separators, two digits of minutes. -/
def readNumericOffset (separators : Reader Unit) : Reader Int := do
  let sign ← oneOf ['+', '-', '\u2212']
  let hours ← number 2 2
  separators
  let minutes ← number 2 2
  if 60 ≤ minutes then failure
  let seconds : Int := hours * 3600 + minutes * 60
  return if sign = '+' then seconds else -seconds

/-- An offset: the letter for UTC or a numeric offset. -/
def readOffset (separators : Reader Unit) : Reader Int := do
  match ← optional ['Z', 'z'] with
  | some _ => return 0
  | none => readNumericOffset separators

/-- A clock reading with every field at its full width. -/
def readStrictClock : Reader ClockReading := do
  let year ← number 4 4
  discard (oneOf ['-'])
  let month ← number 2 2
  discard (oneOf ['-'])
  let day ← number 2 2
  discard (oneOf ['T', 't', ' '])
  let hour ← number 2 2
  discard (oneOf [':'])
  let minute ← number 2 2
  discard (oneOf [':'])
  let second ← number 2 2
  let nanos ← readFraction
  let offset ← readOffset (discard (oneOf [':']))
  atEnd
  return ⟨⟨year, month, day⟩, hour, minute, second, nanos, offset⟩

/-- The instant that a text spells with every field at its full width, blanks around it left out. -/
def read? (text : String) : Option Timestamp := do
  let (clock, _) ← readStrictClock.run (trimBlanks text.toList)
  clock.toTimestamp?

/-- A year of up to four digits, or a sign and any number of digits. -/
def readLenientYear : Reader Int := do
  match ← optional ['-', '+'] with
  | none => return (← number 1 4)
  | some sign =>
    let rest ← get
    let year ← number 1 rest.length
    return if sign = '-' then -year else year

/-- A field of one or two digits after blanks. -/
def readLenientField : Reader Nat := do
  skipWhile isBlank
  number 1 2

/-- A separator after blanks. -/
def readLenientSeparator (separator : Char) : Reader Unit := do
  skipWhile isBlank
  discard (oneOf [separator])

/-- An offset, in letters or numeric. -/
def readLenientOffset : Reader Int := do
  let rest ← get
  if (rest.take 3).map Char.toLower = ['u', 't', 'c'] then
    set (rest.drop 3)
    return 0
  else
    readOffset (skipWhile fun c => c == ':' || isBlank c)

/-- A clock reading with short fields and blanks. -/
def readLenientClock : Reader ClockReading := do
  skipWhile isBlank
  let year ← readLenientYear
  readLenientSeparator '-'
  let month ← readLenientField
  readLenientSeparator '-'
  let day ← readLenientField
  discard (oneOf ['T', 't', ' '])
  let hour ← readLenientField
  readLenientSeparator ':'
  let minute ← readLenientField
  readLenientSeparator ':'
  let second ← readLenientField
  let nanos ← readFraction
  skipWhile isBlank
  let offset ← readLenientOffset
  skipWhile isBlank
  atEnd
  return ⟨⟨year, month, day⟩, hour, minute, second, nanos, offset⟩

/-- The instant that a text inside a JSON document spells. -/
def readLenient? (text : String) : Option Timestamp := do
  let (clock, _) ← readLenientClock.run text.toList
  clock.toTimestamp?

end SqlMarshal.Timestamp
