import SqlMarshal.Decimal.Power

/-! # Binary floating point numbers of 64 bits

A number is its bit pattern: a sign, eleven bits of exponent and 52 bits of fraction. Every finite
pattern denotes `± significand · 2ᵉ` for whole numbers `significand` and `e`, and all arithmetic
of this library on such numbers goes through that reading.
-/

namespace SqlMarshal

/-- A floating point number, given by its bit pattern. -/
structure Binary64 where
  bits : UInt64
  deriving DecidableEq, Repr

namespace Binary64

def isNegative (x : Binary64) : Bool :=
  decide (twoTo 63 ≤ x.bits.toNat)

/-- The pattern without its sign, in which larger magnitudes have larger numbers. -/
def magnitude (x : Binary64) : Nat :=
  x.bits.toNat % twoTo 63

def exponentField (x : Binary64) : Nat :=
  x.magnitude / twoTo 52

def fraction (x : Binary64) : Nat :=
  x.magnitude % twoTo 52

def isFinite (x : Binary64) : Bool :=
  decide (x.exponentField < 2047)

def isNaN (x : Binary64) : Bool :=
  decide (2047 * twoTo 52 < x.magnitude)

/-- The whole number that is scaled by a power of two, for a finite pattern. -/
def significand (x : Binary64) : Nat :=
  if x.exponentField = 0 then x.fraction else twoTo 52 + x.fraction

/-- The power of two by which the significand is scaled, for a finite pattern. -/
def exponent (x : Binary64) : Int :=
  (max x.exponentField 1 : Nat) - 1075

/-- The number with a magnitude below 2⁶³ and a sign. -/
def ofMagnitude (negative : Bool) (magnitude : Nat) : Binary64 :=
  ⟨UInt64.ofNat (if negative then twoTo 63 + magnitude else magnitude)⟩

def zero (negative : Bool) : Binary64 :=
  ofMagnitude negative 0

def infinity (negative : Bool) : Binary64 :=
  ofMagnitude negative (2047 * twoTo 52)

/-- A pattern that denotes no number. -/
def nan : Binary64 :=
  ⟨0x7FF8000000000000⟩

end Binary64

end SqlMarshal
