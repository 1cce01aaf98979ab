import SqlMarshal.Binary64.Rounding
import SqlMarshal.Decimal.Power
import SqlMarshal.Document.Basic
import SqlMarshal.Document.Token

/-! # The numbers of JSON text

A numeral without point and power is a whole number when it fits 64 bits. Every other one becomes a
floating point number in two roundings: as many of its digits as fit 64 bits are taken as a whole
number and rounded, and the result is multiplied or divided by a power of ten. A numeral beyond the
floating point numbers is refused; one below them is zero.
-/

namespace SqlMarshal.Document

/-- Takes digits into a number while it stays below 2⁶⁴; the second part counts those taken. -/
def absorbDigits (soFar : Nat) : List Char → Nat × Nat
  | [] => (soFar, 0)
  | c :: rest =>
      let next := soFar * 10 + (c.toNat - '0'.toNat)
      if next < UInt64.size then
        let (number, taken) := absorbDigits next rest
        (number, taken + 1)
      else
        (soFar, 0)

/-- The rounded power of ten for exponents up to 308. -/
def powerOfTen (exponent : Nat) : Binary64 :=
  .ofDecimal false 1 exponent

/-- Divides a number by a power of ten in steps of at most 308 places, stopping at zero. -/
def divideByPower (x : Binary64) (exponent : Nat) : Binary64 :=
  if exponent ≤ 308 then x.div (powerOfTen exponent)
  else if x.magnitude = 0 then x
  else divideByPower (x.div (powerOfTen 308)) (exponent - 308)
termination_by exponent

/-- The floating point number with some digits and a power of ten, unless it is too large. -/
def scaleDigits? (digits : Nat) (power : Int) : Option Binary64 :=
  let x := Binary64.ofInt digits
  if power < 0 then
    some (divideByPower x power.natAbs)
  else if power ≤ 308 then
    let scaled := x.mul (powerOfTen power.toNat)
    if scaled.isFinite then some scaled else none
  else if digits = 0 then
    some x
  else
    none

def withSign (negative : Bool) (x : Binary64) : Binary64 :=
  .ofMagnitude negative x.magnitude

/-- The whole number with some digits, which is floating point when it is a negative zero or below
the signed numbers of 64 bits. -/
def wholeNumber (negative : Bool) (digits : Nat) : Document :=
  if negative then
    if 1 ≤ digits ∧ digits ≤ twoTo 63 then .int (-digits)
    else .float (withSign true (.ofInt digits))
  else
    .int digits

/-- The number that a numeral spells, unless it is too large. A power of ten beyond 31 bits is not
computed with: it makes zero, or a number too large. -/
def NumberText.value? (numeral : NumberText) : Option Document :=
  let (digits, taken) := absorbDigits 0 numeral.whole
  let left := numeral.whole.length - taken
  if numeral.places.isNone ∧ numeral.power.isNone ∧ left = 0 then
    some (wholeNumber numeral.negative digits)
  else
    let (digits, places) := absorbDigits digits (numeral.places.getD [])
    let power : Int := left - places
    let scaled := match numeral.power with
      | none => scaleDigits? digits power
      | some (below, written) =>
          let exponent := Nat.ofDigitChars 10 written 0
          if exponent < twoTo 31 then
            scaleDigits? digits (if below then power - exponent else power + exponent)
          else if digits = 0 ∨ below then
            some (.zero false)
          else
            none
    scaled.map fun x => .float (withSign numeral.negative x)

end SqlMarshal.Document
