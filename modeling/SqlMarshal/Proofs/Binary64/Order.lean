import Mathlib.Algebra.Order.Field.Rat
import Mathlib.Algebra.Order.Ring.Cast
import Mathlib.Order.Monotone.Basic
import Mathlib.Tactic.Ring
import SqlMarshal.Binary64.Whole

/-! # The numbers that patterns denote

A pattern denotes a rational number, or none if its exponent field is full. Every such number is a
multiple of the least positive one, and counted in these units a magnitude grows with its pattern. So
to compare two patterns is to compare the numbers that they denote.
-/

namespace SqlMarshal.Binary64

/-- The exact number that a pattern denotes, its fields read as IEEE 754 has it. -/
def value? (x : Binary64) : Option ℚ :=
  let sign : ℚ := if x.isNegative then -1 else 1
  if x.exponentField = 2047 then
    none
  else if x.exponentField = 0 then
    some (sign * (x.fraction / 2 ^ 52) * 2 ^ (-1022 : ℤ))
  else
    some (sign * (1 + x.fraction / 2 ^ 52) * 2 ^ ((x.exponentField : ℤ) - 1023))

/-- How many times the least positive number goes into one. -/
def unitsInOne : Nat :=
  2 ^ 1074

/-- A magnitude, counted in units of the least positive number. -/
def unitsOf (magnitude : Nat) : Nat :=
  if magnitude / 2 ^ 52 = 0 then magnitude % 2 ^ 52
  else (2 ^ 52 + magnitude % 2 ^ 52) * 2 ^ (magnitude / 2 ^ 52 - 1)

/-- A finite number, counted in units of the least positive one. -/
def units (x : Binary64) : Int :=
  if x.isNegative then -unitsOf x.magnitude else unitsOf x.magnitude

/-! ## Units -/

theorem unitsInOne_pos : 0 < unitsInOne := by
  unfold unitsInOne
  exact pow_pos two_pos 1074

theorem strictMono_unitsOf : StrictMono unitsOf := by
  refine strictMono_nat_of_lt_succ fun m => ?_
  have split := Nat.div_add_mod m (2 ^ 52)
  have small := Nat.mod_lt m (Nat.two_pow_pos 52)
  by_cases full : m % 2 ^ 52 + 1 = 2 ^ 52
  · -- The fraction is used up, and the exponent grows by one.
    have next : (m + 1) / 2 ^ 52 = m / 2 ^ 52 + 1 := by omega
    have rest : (m + 1) % 2 ^ 52 = 0 := by omega
    rw [unitsOf, unitsOf, next, rest, if_neg (Nat.succ_ne_zero _), Nat.add_sub_cancel]
    split
    · rename_i none
      rw [none]
      omega
    · have double : 2 ^ (m / 2 ^ 52) = 2 * 2 ^ (m / 2 ^ 52 - 1) := by
        rw [← Nat.pow_succ']
        congr 1
        omega
      rw [double, ← Nat.mul_assoc]
      exact Nat.mul_lt_mul_of_pos_right (by omega) (Nat.two_pow_pos _)
  · have same : (m + 1) / 2 ^ 52 = m / 2 ^ 52 := by omega
    have rest : (m + 1) % 2 ^ 52 = m % 2 ^ 52 + 1 := by omega
    rw [unitsOf, unitsOf, same, rest]
    split
    · exact Nat.lt_succ_self _
    · exact Nat.mul_lt_mul_of_pos_right (by omega) (Nat.two_pow_pos _)

theorem unitsOf_magnitude (x : Binary64) :
    unitsOf x.magnitude = x.significand * 2 ^ (max x.exponentField 1 - 1) := by
  have field : x.exponentField = x.magnitude / 2 ^ 52 := rfl
  have fraction : x.fraction = x.magnitude % 2 ^ 52 := rfl
  rw [unitsOf, significand, ← field, ← fraction]
  by_cases least : x.exponentField = 0
  · simp [least]
  · rw [if_neg least, if_neg least, Nat.max_eq_left (Nat.pos_of_ne_zero least)]
    rfl

theorem absRatio_units (x : Binary64) :
    x.absRatio.1 * unitsInOne = unitsOf x.magnitude * x.absRatio.2 := by
  rw [unitsOf_magnitude, absRatio, unitsInOne]
  generalize field : max x.exponentField 1 = e
  have positive : 1 ≤ e := field ▸ Nat.le_max_right _ _
  have power : x.exponent = (e : Int) - 1075 := by rw [exponent, field]
  split
  · rename_i large
    have sum : e - 1 = x.exponent.toNat + 1074 := by omega
    simp only [sum, twoTo, Nat.pow_eq, Nat.pow_add, Nat.mul_one, Nat.mul_assoc]
  · rename_i small
    have sum : 1074 = e - 1 + (-x.exponent).toNat := by omega
    conv_lhs => rw [sum]
    simp only [twoTo, Nat.pow_eq, Nat.pow_add, Nat.mul_assoc]

theorem exponentField_le (x : Binary64) : x.exponentField ≤ 2047 := by
  have small : x.magnitude < 2 ^ 63 := Nat.mod_lt _ (Nat.two_pow_pos 63)
  have field : x.exponentField = x.magnitude / 2 ^ 52 := rfl
  omega

theorem isFinite_iff (x : Binary64) : x.isFinite ↔ x.exponentField ≠ 2047 := by
  have bound := x.exponentField_le
  rw [isFinite, decide_eq_true_iff]
  omega

theorem isNaN_of_isFinite {x : Binary64} (finite : x.isFinite) : x.isNaN = false := by
  have field : x.exponentField = x.magnitude / 2 ^ 52 := rfl
  rw [isFinite, decide_eq_true_iff, field] at finite
  rw [isNaN, decide_eq_false_iff_not]
  change ¬ 2047 * 2 ^ 52 < x.magnitude
  omega

theorem scale_eq (e : Nat) : (2 : ℚ) ^ ((e : ℤ) - 1022) = 2 ^ 52 * 2 ^ e / unitsInOne := by
  have sum : (e : ℤ) - 1022 = ((52 + e : ℕ) : ℤ) - (1074 : ℕ) := by omega
  rw [sum, zpow_sub₀ two_ne_zero, zpow_natCast, zpow_natCast, pow_add, unitsInOne, Nat.cast_pow,
    Nat.cast_ofNat]

theorem value?_eq {x : Binary64} (finite : x.isFinite) :
    x.value? = some ((x.units : ℚ) / unitsInOne) := by
  have full : x.exponentField ≠ 2047 := x.isFinite_iff.1 finite
  have signed : ∀ n : Nat, ((if x.isNegative then -n else n : ℤ) : ℚ) =
      (if x.isNegative then -1 else 1) * n := fun n => by
    split <;> simp
  rw [value?, if_neg full, units, signed, unitsOf_magnitude, significand]
  by_cases least : x.exponentField = 0
  · have scale := scale_eq 0
    simp only [Nat.cast_zero, zero_sub, pow_zero, mul_one] at scale
    rw [if_pos least, if_pos least, least, scale, Nat.max_eq_right zero_le_one, Nat.sub_self]
    congr 1
    push_cast
    ring
  · have scale := scale_eq (x.exponentField - 1)
    have power : ((x.exponentField - 1 : ℕ) : ℤ) - 1022 = x.exponentField - 1023 := by omega
    rw [if_neg least, if_neg least, Nat.max_eq_left (Nat.pos_of_ne_zero least), ← power, scale]
    congr 1
    push_cast
    ring

theorem value?_eq_some {x : Binary64} {q : ℚ} :
    x.value? = some q ↔ x.isFinite ∧ (x.units : ℚ) / unitsInOne = q := by
  by_cases finite : x.isFinite
  · rw [value?_eq finite, Option.some.injEq]
    exact (and_iff_right finite).symm
  · have full : x.exponentField = 2047 := by
      by_contra other
      exact finite (x.isFinite_iff.2 other)
    rw [value?, if_pos full]
    exact iff_of_false nofun fun holds => finite holds.1

/-! ## Order -/

theorem rank_le_iff {x y : Binary64} : x.rank ≤ y.rank ↔ x.units ≤ y.units := by
  have least : unitsOf 0 = 0 := rfl
  have upwards := strictMono_unitsOf.le_iff_le (a := x.magnitude) (b := y.magnitude)
  have downwards := strictMono_unitsOf.le_iff_le (a := y.magnitude) (b := x.magnitude)
  have left := strictMono_unitsOf.le_iff_le (a := x.magnitude) (b := 0)
  have right := strictMono_unitsOf.le_iff_le (a := y.magnitude) (b := 0)
  unfold rank units
  split <;> split <;> omega

section Compare

variable {x y : Binary64} {p q : ℚ}

theorem comparable_of_values (left : x.value? = some p) (right : y.value? = some q) :
    comparable x y := by
  rw [comparable, isNaN_of_isFinite (value?_eq_some.1 left).1,
    isNaN_of_isFinite (value?_eq_some.1 right).1]
  rfl

/-- Comparing patterns compares the numbers that they denote. -/
theorem le_iff (left : x.value? = some p) (right : y.value? = some q) : le x y ↔ p ≤ q := by
  obtain ⟨-, rfl⟩ := value?_eq_some.1 left
  obtain ⟨-, rfl⟩ := value?_eq_some.1 right
  rw [le, comparable_of_values left right, Bool.true_and, decide_eq_true_iff, rank_le_iff,
    div_le_div_iff_of_pos_right (Nat.cast_pos.2 unitsInOne_pos), Int.cast_le]

theorem lt_iff (left : x.value? = some p) (right : y.value? = some q) : lt x y ↔ p < q := by
  rw [← not_le, ← le_iff right left, lt, le, comparable_of_values left right,
    comparable_of_values right left, Bool.true_and, Bool.true_and, decide_eq_true_iff,
    decide_eq_true_iff, not_le]

end Compare

end SqlMarshal.Binary64
