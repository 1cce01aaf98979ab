import SqlMarshal.Binary64.Basic

/-! # Rounding to binary formats

A positive fraction is rounded to the nearest number with a bounded count of binary digits; of two
equally near ones the even significand is taken. A format also has a least unit, below which the
count of digits shrinks, and its numbers end where the exponent field is full.
-/

namespace SqlMarshal

/-- The whole number nearest to `num / den`, a half going to the even neighbour. -/
def roundDiv (num den : Nat) : Nat :=
  let quotient := num / den
  let rest := num % den
  if 2 * rest < den then quotient
  else if den < 2 * rest then quotient + 1
  else quotient + quotient % 2

/-- A binary format: how many binary digits its numbers have, and the exponent of its least unit. -/
structure BinaryFormat where
  precision : Nat
  leastExponent : Int
  deriving DecidableEq, Repr

namespace BinaryFormat

def double : BinaryFormat := ⟨53, -1074⟩

def single : BinaryFormat := ⟨24, -149⟩

/-- The exponent of the last place in which a positive fraction is written. -/
def lastPlace (format : BinaryFormat) (num den : Nat) : Int :=
  let estimate : Int := (Nat.log2 num : Int) - Nat.log2 den
  let reached :=
    if 0 ≤ estimate then den * twoTo estimate.toNat ≤ num
    else den ≤ num * twoTo (-estimate).toNat
  let top := if reached then estimate else estimate - 1
  max (top + 1 - format.precision) format.leastExponent

/-- A significand and the exponent of its last place, nearest to a positive fraction. -/
def round (format : BinaryFormat) (num den : Nat) : Nat × Int :=
  let place := format.lastPlace num den
  (if 0 ≤ place then roundDiv num (den * twoTo place.toNat)
    else roundDiv (num * twoTo (-place).toNat) den, place)

end BinaryFormat

namespace Binary64

/-- The number nearest to `± num / den`; beyond the largest finite number it is an infinity. -/
def ofRatio (negative : Bool) (num den : Nat) : Binary64 :=
  if num = 0 then
    zero negative
  else
    let (significand, place) := BinaryFormat.double.round num den
    let magnitude := (place + 1074).toNat * twoTo 52 + significand
    ofMagnitude negative (min magnitude (2047 * twoTo 52))

/-- The number nearest to ± digits · 10ᵖ for a power `p`. -/
def ofDecimal (negative : Bool) (digits : Nat) (power : Int) : Binary64 :=
  if 0 ≤ power then ofRatio negative (digits * tenTo power.toNat) 1
  else ofRatio negative digits (tenTo (-power).toNat)

def ofInt (n : Int) : Binary64 :=
  ofRatio (decide (n < 0)) n.natAbs 1

/-- The absolute value of a finite number as a fraction. -/
def absRatio (x : Binary64) : Nat × Nat :=
  if 0 ≤ x.exponent then (x.significand * twoTo x.exponent.toNat, 1)
  else (x.significand, twoTo (-x.exponent).toNat)

/-- The product of two finite numbers, rounded. -/
def mul (x y : Binary64) : Binary64 :=
  let (a, b) := x.absRatio
  let (c, d) := y.absRatio
  ofRatio (x.isNegative != y.isNegative) (a * c) (b * d)

/-- The quotient of two finite numbers, rounded; the divisor is not zero. -/
def div (x y : Binary64) : Binary64 :=
  let (a, b) := x.absRatio
  let (c, d) := y.absRatio
  ofRatio (x.isNegative != y.isNegative) (a * d) (b * c)

/-- The magnitude of the largest finite number of single precision. -/
def singleMaxMagnitude : Nat :=
  0x47EFFFFFE0000000

/-- Whether a number is finite but lies beyond the finite numbers of single precision. -/
def exceedsSingle (x : Binary64) : Bool :=
  x.isFinite && decide (singleMaxMagnitude < x.magnitude)

/-- The number of single precision nearest to a number. -/
def toSingle (x : Binary64) : Binary64 :=
  if x.isFinite && x.significand != 0 then
    let (num, den) := x.absRatio
    let (significand, place) := BinaryFormat.single.round num den
    let rounded :=
      if 0 ≤ place then ofRatio x.isNegative (significand * twoTo place.toNat) 1
      else ofRatio x.isNegative significand (twoTo (-place).toNat)
    if singleMaxMagnitude < rounded.magnitude then infinity x.isNegative else rounded
  else
    x

end Binary64

end SqlMarshal
