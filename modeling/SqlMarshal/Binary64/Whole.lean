import SqlMarshal.Binary64.Rounding

/-! # Whole parts and the order of numbers

A number consists of a whole part and a part behind the binary point, both with its sign. A machine
word takes the whole part alone, and of what no word holds the nearest word.

Numbers are compared by what they denote, so both zeros are alike, and the infinities are at the two
ends. A pattern that denotes no number compares with nothing, not even with itself.
-/

namespace SqlMarshal.Binary64

/-- The part of a number behind the binary point; what is not finite has no such number. -/
def fract (x : Binary64) : Binary64 :=
  if x.isFinite then
    let (num, den) := x.absRatio
    if num % den = 0 then zero false else ofRatio x.isNegative (num % den) den
  else
    nan

/-- The whole part of a number. That of an infinity is beyond all words. -/
def wholePart (x : Binary64) : Int :=
  let (num, den) := x.absRatio
  if x.isNegative then -(num / den : Nat) else (num / den : Nat)

/-- The signed word next to the whole part of a number; what is no number becomes zero. -/
def toInt64 (x : Binary64) : Int64 :=
  if x.isNaN then 0
  else .ofInt (max Int64.minValue.toInt (min x.wholePart Int64.maxValue.toInt))

/-- The unsigned word next to the whole part of a number; what is no number becomes zero. -/
def toUInt64 (x : Binary64) : UInt64 :=
  if x.isNaN then 0 else .ofNat (min x.wholePart.toNat (UInt64.size - 1))

/-! ## Comparing -/

/-- The place of a number in the order of all numbers. -/
def rank (x : Binary64) : Int :=
  if x.isNegative then -x.magnitude else x.magnitude

def comparable (x y : Binary64) : Bool :=
  !x.isNaN && !y.isNaN

def eq (x y : Binary64) : Bool :=
  comparable x y && decide (x.rank = y.rank)

def le (x y : Binary64) : Bool :=
  comparable x y && decide (x.rank ≤ y.rank)

def lt (x y : Binary64) : Bool :=
  comparable x y && decide (x.rank < y.rank)

end SqlMarshal.Binary64
