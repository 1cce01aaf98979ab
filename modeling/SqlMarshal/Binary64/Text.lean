import SqlMarshal.Binary64.Rounding
import SqlMarshal.Binary64.Shortest

/-! # The text of floating point numbers

A number is written with its shortest digits, laid out by a style: which magnitudes are written with
a decimal point in place and which with a power of ten, whether that power shows a plus sign, and
whether a whole number shows a zero after the point. Reading takes signs, digits with a point, a power
of ten, and the names of infinity and of the value that is no number, and rounds to the nearest
number.
-/

namespace SqlMarshal.Binary64

/-- How the digits of a number are laid out. -/
structure Style where
  /-- The least and the greatest power of the first digit that are written in place; without a range
  all are. -/
  inPlace : Option (Int × Int)
  /-- Whether a whole number written in place shows `.0`. -/
  wholeWithPoint : Bool
  /-- Whether a power of ten that is not negative shows a plus sign. -/
  signedPower : Bool
  tie : Tie
  deriving DecidableEq, Repr

/-- The text form of a value: digits in place, whatever their number. -/
def Style.plain : Style where
  inPlace := none
  wholeWithPoint := false
  signedPower := false
  tie := .up

/-- The form inside the description of a value: whole numbers show a point, and magnitudes below
10⁻⁴ or from 10¹⁶ on a power of ten. -/
def Style.described : Style where
  inPlace := some (-4, 15)
  wholeWithPoint := true
  signedPower := false
  tie := .up

/-- The form inside a JSON document: whole numbers show a point, and magnitudes below 10⁻⁵ or from
10¹⁶ on a power of ten with its sign. -/
def Style.document : Style where
  inPlace := some (-5, 15)
  wholeWithPoint := true
  signedPower := true
  tie := .even

/-- Digits with the decimal point in place; `first` is the power of the first digit. -/
def layInPlace (wholeWithPoint : Bool) (digits : List Char) (first : Int) : List Char :=
  if first < 0 then
    '0' :: '.' :: List.replicate (-first - 1).toNat '0' ++ digits
  else
    let whole := first.toNat + 1
    if whole < digits.length then
      digits.take whole ++ '.' :: digits.drop whole
    else
      digits ++ List.replicate (whole - digits.length) '0'
        ++ (if wholeWithPoint then ['.', '0'] else [])

/-- Digits with the point after the first one, and a power of ten. -/
def layWithPower (signedPower : Bool) (digits : List Char) (first : Int) : List Char :=
  let mantissa := match digits with
    | lead :: next :: rest => lead :: '.' :: next :: rest
    | single => single
  let plus := if signedPower && decide (0 ≤ first) then ['+'] else []
  mantissa ++ 'e' :: plus ++ Decimal.write first

/-- The digits of a finite number, without its sign. -/
def writeMagnitude (style : Style) (x : Binary64) : List Char :=
  if x.magnitude = 0 then
    layInPlace style.wholeWithPoint ['0'] 0
  else
    let shortest := shortest style.tie x
    let digits := Decimal.writeNat shortest.digits
    let first := shortest.power + digits.length - 1
    match style.inPlace with
    | none => layInPlace style.wholeWithPoint digits first
    | some (least, greatest) =>
        if least ≤ first ∧ first ≤ greatest then layInPlace style.wholeWithPoint digits first
        else layWithPower style.signedPower digits first

def text (style : Style) (x : Binary64) : String :=
  if x.isNaN then
    "NaN"
  else
    let sign := if x.isNegative then ['-'] else []
    if x.isFinite then String.ofList (sign ++ writeMagnitude style x)
    else String.ofList (sign ++ ['i', 'n', 'f'])

/-! ## Reading -/

/-- The parts of a decimal numeral: its digits without the point, how many of them stand after the
point, and the written power of ten. -/
structure Numeral where
  digits : List Char
  places : Nat
  power : Int
  deriving DecidableEq, Repr

/-- The power of ten after its mark: nothing, or a mark with an optional sign and digits. -/
def readPower? : List Char → Option Int
  | [] => some 0
  | mark :: rest => if mark = 'e' ∨ mark = 'E' then Decimal.readSigned? rest else none

/-- A numeral: digits with at most one point among, before or after them, then the power of ten. -/
def readNumeral? (text : List Char) : Option Numeral :=
  let whole := text.takeWhile Char.isDigit
  let (places, rest) := match text.dropWhile Char.isDigit with
    | '.' :: rest => (rest.takeWhile Char.isDigit, rest.dropWhile Char.isDigit)
    | rest => ([], rest)
  if whole.isEmpty && places.isEmpty then none
  else (readPower? rest).map (⟨whole ++ places, places.length, ·⟩)

/-- The number nearest to a numeral. Powers so far out that the result is zero or infinite whatever
the digits are not computed. -/
def ofNumeral (negative : Bool) (numeral : Numeral) : Binary64 :=
  let digits := numeral.digits.dropWhile (· == '0')
  let power := numeral.power - numeral.places
  let top := power + digits.length
  if digits.isEmpty ∨ top < -330 then zero negative
  else if 310 < top then infinity negative
  else ofDecimal negative (Nat.ofDigitChars 10 digits 0) power

/-- An unsigned number: a numeral, or a name in any case of its letters. -/
def readMagnitude? (negative : Bool) (text : List Char) : Option Binary64 :=
  let name := text.map Char.toLower
  if name = ['i', 'n', 'f'] ∨ name = ['i', 'n', 'f', 'i', 'n', 'i', 't', 'y'] then
    some (infinity negative)
  else if name = ['n', 'a', 'n'] then
    some (ofMagnitude negative nan.magnitude)
  else
    (readNumeral? text).map (ofNumeral negative)

def read? : List Char → Option Binary64
  | '-' :: rest => readMagnitude? true rest
  | '+' :: rest => readMagnitude? false rest
  | text => readMagnitude? false text

end SqlMarshal.Binary64
