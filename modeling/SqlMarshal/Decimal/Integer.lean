/-! # Whole numbers in decimal

A whole number is written with its digits and, when negative, a minus sign. Reading admits what
writing produces and, besides, leading zeros and a plus sign.
-/

namespace SqlMarshal.Decimal

/-- The number that a nonempty run of ASCII digits spells. -/
def readDigits? (text : List Char) : Option Nat :=
  if !text.isEmpty && text.all Char.isDigit then
    some (Nat.ofDigitChars 10 text 0)
  else
    none

/-- An unsigned number: digits after an optional plus sign. -/
def readUnsigned? : List Char → Option Nat
  | '+' :: digits => readDigits? digits
  | digits => readDigits? digits

/-- A signed number: digits after an optional sign. -/
def readSigned? : List Char → Option Int
  | '-' :: digits => (readDigits? digits).map fun n => -(n : Int)
  | text => (readUnsigned? text).map fun n => (n : Int)

def writeNat (n : Nat) : List Char :=
  Nat.toDigits 10 n

def write : Int → List Char
  | .ofNat n => writeNat n
  | .negSucc n => '-' :: writeNat (n + 1)

def text (n : Int) : String :=
  String.ofList (write n)

/-- The digits of a number, with zeros in front up to a least width. -/
def writePadded (width n : Nat) : List Char :=
  let digits := writeNat n
  List.replicate (width - digits.length) '0' ++ digits

end SqlMarshal.Decimal
