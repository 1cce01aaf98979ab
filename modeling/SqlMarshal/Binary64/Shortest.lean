import SqlMarshal.Binary64.Basic
import SqlMarshal.Decimal.Integer

/-! # Shortest decimal digits

The digits of a floating point number are the fewest that read back as the same number. The reals
that round to a number form an interval around it, with its ends when the significand is even. For
one digit, two digits and so on, the two neighbours of the number on the decimal grid are tried: the
first grid with a neighbour in the interval gives the digits, and of two neighbours the nearer one.
-/

namespace SqlMarshal.Binary64

/-- A positive number: some digits times a power of ten. -/
structure DecimalDigits where
  digits : Nat
  power : Int
  deriving DecidableEq, Repr

/-- The largest power of ten that is at most `num / den`. -/
def leadingPower (num den : Nat) : Int :=
  if den ≤ num then
    (Decimal.writeNat (num / den)).length - 1
  else
    -((Decimal.writeNat ((den + num - 1) / num - 1)).length : Int)

/-- The rounding interval of a number in units of a quarter of its last place: a lower end, the
number itself and an upper end. Below a power of two the numbers lie twice as dense. -/
def roundingInterval (x : Binary64) : Nat × Nat × Nat :=
  let centre := 4 * x.significand
  (if x.fraction = 0 ∧ 1 < x.exponentField then centre - 1 else centre - 2, centre, centre + 2)

/-- Which of two equally near neighbours is taken. -/
inductive Tie where
  /-- The one with the even last digit. -/
  | even
  /-- The one farther from zero. -/
  | up
  deriving DecidableEq, Repr

/-- The neighbour on the grid of the multiples of a power of ten that reads back as the number,
if one does. -/
def gridNeighbour? (tie : Tie) (x : Binary64) (power : Int) : Option Nat :=
  let (low, centre, high) := x.roundingInterval
  let quarter := x.exponent - 2
  let gridUnit := tenTo power.toNat * twoTo (-quarter).toNat
  let ownUnit := twoTo quarter.toNat * tenTo (-power).toNat
  let inside (d : Nat) : Bool :=
    if x.significand % 2 = 0 then
      decide (low * ownUnit ≤ d * gridUnit ∧ d * gridUnit ≤ high * ownUnit)
    else
      decide (low * ownUnit < d * gridUnit ∧ d * gridUnit < high * ownUnit)
  let below := centre * ownUnit / gridUnit
  let above := below + 1
  match inside below, inside above with
  | false, false => none
  | true, false => some below
  | false, true => some above
  | true, true =>
      let twice := 2 * (centre * ownUnit)
      let sum := (below + above) * gridUnit
      if twice < sum then some below
      else if sum < twice then some above
      else match tie with
        | .up => some above
        | .even => some (below + below % 2)

/-- All the digits of a number, which has finitely many because ten is a multiple of two. -/
def exactDigits (x : Binary64) : DecimalDigits :=
  if 0 ≤ x.exponent then ⟨x.significand * twoTo x.exponent.toNat, 0⟩
  else ⟨x.significand * Nat.pow 5 (-x.exponent).toNat, x.exponent⟩

/-- Tries as many grids as allowed, the first of which has `count` digits, for a number whose first
digit has a given power. -/
def searchGrids (tie : Tie) (x : Binary64) (first : Int) : (grids count : Nat) → DecimalDigits
  | 0, _ => x.exactDigits
  | grids + 1, count =>
      let power := first + 1 - count
      match gridNeighbour? tie x power with
      | some digits => ⟨digits, power⟩
      | none => searchGrids tie x first grids (count + 1)

/-- Moves the zeros at the end of some digits into the power. -/
def stripZeros : (places : Nat) → DecimalDigits → DecimalDigits
  | 0, d => d
  | places + 1, d =>
      if d.digits % 10 = 0 then stripZeros places ⟨d.digits / 10, d.power + 1⟩ else d

/-- The shortest digits of a finite number other than zero. Seventeen digits always suffice. -/
def shortest (tie : Tie) (x : Binary64) : DecimalDigits :=
  let first :=
    if 0 ≤ x.exponent then leadingPower (x.significand * twoTo x.exponent.toNat) 1
    else leadingPower x.significand (twoTo (-x.exponent).toNat)
  stripZeros 17 (searchGrids tie x first 17 1)

end SqlMarshal.Binary64
