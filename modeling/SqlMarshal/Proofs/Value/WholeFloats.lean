import SqlMarshal.Proofs.Binary64.Order
import SqlMarshal.Value.Convert

/-! # Whole numbers among floating point numbers

A floating point number is widened to a machine word if its fractional part is zero and it lies
between two bounds, which are words that have been rounded to floating point numbers themselves. The
upper bound of either kind of word is rounded up, to a number that no word holds, and is excluded;
so what passes is a whole number that the word holds, and the word is that number. Everything else
is refused.
-/

namespace SqlMarshal

namespace Binary64

variable {x : Binary64} {n : Int}

/-! ## Fractional parts -/

theorem div_le_roundDiv (num den : Nat) : num / den ≤ roundDiv num den := by
  unfold roundDiv
  dsimp only
  split
  · exact Nat.le_refl _
  · split <;> omega

theorem magnitude_ofMagnitude {negative : Bool} {m : Nat} (small : m < 2 ^ 63) :
    (ofMagnitude negative m).magnitude = m := by
  simp only [magnitude, ofMagnitude, twoTo, Nat.pow_eq, UInt64.toNat_ofNat']
  split <;> omega

theorem rank_eq_zero : x.rank = 0 ↔ x.magnitude = 0 := by
  unfold rank
  split <;> omega

/-- What is not less than the least positive number is not rounded to zero. -/
theorem rank_ofRatio_ne_zero {negative : Bool} {num den : Nat} (positive : 0 < den)
    (least : den ≤ num * unitsInOne) : (ofRatio negative num den).rank ≠ 0 := by
  have some : num ≠ 0 := by
    rintro rfl
    omega
  have lowest : -1074 ≤ BinaryFormat.double.lastPlace num den := Int.le_max_right _ _
  rw [ofRatio, if_neg some]
  simp only [BinaryFormat.round]
  generalize BinaryFormat.double.lastPlace num den = place at lowest
  rw [Ne, rank_eq_zero, magnitude_ofMagnitude]
  · by_cases last : place = -1074
    · -- In the last place of all, the quotient alone is positive.
      have quotient : 0 < num * unitsInOne / den := Nat.div_pos least positive
      have rounded := div_le_roundDiv (num * unitsInOne) den
      have power : twoTo (-place).toNat = unitsInOne := by
        rw [last, unitsInOne, twoTo, Nat.pow_eq, Int.neg_neg]
        congr 1
      rw [if_neg (by omega), power]
      generalize roundDiv (num * unitsInOne) den = significand at rounded
      simp only [twoTo, Nat.pow_eq]
      omega
    · have above : 1 ≤ (place + 1074).toNat := by omega
      have large := Nat.mul_le_mul_right (2 ^ 52) above
      simp only [twoTo, Nat.pow_eq]
      omega
  · simp only [twoTo, Nat.pow_eq]
    omega

theorem twoTo_le {m n : Nat} (le : m ≤ n) : twoTo m ≤ 2 ^ n :=
  Nat.pow_le_pow_right Nat.two_pos le

theorem absRatio_den (x : Binary64) : 0 < x.absRatio.2 ∧ x.absRatio.2 ≤ unitsInOne := by
  rw [absRatio]
  split
  · exact ⟨Nat.one_pos, unitsInOne_pos⟩
  · have least : -1074 ≤ x.exponent := by
      rw [exponent]
      omega
    rw [unitsInOne]
    exact ⟨Nat.two_pow_pos _, twoTo_le (by omega)⟩

theorem eq_fract_zero :
    x.fract.eq (zero false) ↔ x.isFinite ∧ x.absRatio.1 % x.absRatio.2 = 0 := by
  obtain ⟨positive, small⟩ := x.absRatio_den
  unfold fract
  by_cases finite : x.isFinite
  · by_cases whole : x.absRatio.1 % x.absRatio.2 = 0
    · simp only [finite, whole, if_true]
      decide
    · have least : x.absRatio.2 ≤ x.absRatio.1 % x.absRatio.2 * unitsInOne :=
        Nat.le_trans small (Nat.le_mul_of_pos_left _ (Nat.pos_of_ne_zero whole))
      have apart : (ofRatio x.isNegative (x.absRatio.1 % x.absRatio.2) x.absRatio.2).rank ≠
          (zero false).rank := rank_ofRatio_ne_zero positive least
      simp [finite, whole, eq, apart]
  · simp only [finite, Bool.false_eq_true, if_false, false_and, iff_false]
    decide

/-! ## Whole parts -/

theorem unitsOf_eq_iff :
    (unitsOf x.magnitude : ℤ) = n * unitsInOne ↔
      x.absRatio.1 % x.absRatio.2 = 0 ∧ ((x.absRatio.1 / x.absRatio.2 : ℕ) : ℤ) = n := by
  have scaled := x.absRatio_units
  obtain ⟨positive, -⟩ := x.absRatio_den
  generalize x.absRatio.1 = num at *
  generalize x.absRatio.2 = den at *
  constructor
  · intro units
    have split : (num : ℤ) = n * den := by
      refine Int.eq_of_mul_eq_mul_right (Int.natCast_ne_zero.2 unitsInOne_pos.ne') ?_
      calc (num : ℤ) * unitsInOne
        _ = unitsOf x.magnitude * den := by exact_mod_cast scaled
        _ = n * den * unitsInOne := by rw [units, Int.mul_right_comm]
    constructor
    · exact_mod_cast split ▸ Int.mul_emod_left n den
    · rw [Int.natCast_ediv, split, Int.mul_ediv_cancel n (Int.natCast_ne_zero.2 positive.ne')]
  · rintro ⟨whole, rfl⟩
    rw [← Int.natCast_mul, Int.natCast_inj]
    refine Nat.eq_of_mul_eq_mul_right positive ?_
    rw [← scaled, Nat.mul_right_comm, Nat.div_mul_cancel (Nat.dvd_of_mod_eq_zero whole)]

theorem value?_eq_int : x.value? = some (n : ℚ) ↔ x.isFinite ∧ x.units = n * unitsInOne := by
  rw [value?_eq_some, div_eq_iff (Nat.cast_ne_zero.2 unitsInOne_pos.ne')]
  norm_cast

theorem value?_eq_int_iff :
    x.value? = some (n : ℚ) ↔ x.fract.eq (zero false) ∧ x.wholePart = n := by
  rw [value?_eq_int, eq_fract_zero, and_assoc, units, wholePart]
  refine and_congr_right fun _ => ?_
  dsimp only
  split
  · rw [neg_eq_iff_eq_neg, ← neg_mul, unitsOf_eq_iff, neg_eq_iff_eq_neg]
  · exact unitsOf_eq_iff

/-! ## Bounds -/

theorem value?_ofInt_minValue : (ofInt Int64.minValue.toInt).value? = some ((-2 ^ 63 : ℤ) : ℚ) :=
  value?_eq_int.2 ⟨by decide +kernel, by decide +kernel⟩

theorem value?_ofInt_maxValue : (ofInt Int64.maxValue.toInt).value? = some ((2 ^ 63 : ℤ) : ℚ) :=
  value?_eq_int.2 ⟨by decide +kernel, by decide +kernel⟩

theorem value?_zero : (zero false).value? = some ((0 : ℤ) : ℚ) :=
  value?_eq_int.2 ⟨by decide +kernel, by decide +kernel⟩

theorem value?_ofInt_size : (ofInt (UInt64.size - 1)).value? = some ((2 ^ 64 : ℤ) : ℚ) :=
  value?_eq_int.2 ⟨by decide +kernel, by decide +kernel⟩

theorem passes_iff {low high : Binary64} {l h : Int} (lower : low.value? = some (l : ℚ))
    (upper : high.value? = some (h : ℚ)) :
    (x.fract.eq (zero false) && le low x && lt x high) = true ↔
      ∃ n : Int, x.value? = some (n : ℚ) ∧ l ≤ n ∧ n < h := by
  simp only [Bool.and_eq_true]
  constructor
  · rintro ⟨⟨whole, above⟩, below⟩
    have denotes : x.value? = some (x.wholePart : ℚ) := value?_eq_int_iff.2 ⟨whole, rfl⟩
    rw [le_iff lower denotes, Int.cast_le] at above
    rw [lt_iff denotes upper, Int.cast_lt] at below
    exact ⟨_, denotes, above, below⟩
  · rintro ⟨n, denotes, above, below⟩
    rw [le_iff lower denotes, lt_iff denotes upper, Int.cast_le, Int.cast_lt]
    exact ⟨⟨(value?_eq_int_iff.1 denotes).1, above⟩, below⟩

/-! ## Words -/

theorem toInt_toInt64 (denotes : x.value? = some (n : ℚ)) (above : -2 ^ 63 ≤ n)
    (below : n < 2 ^ 63) : x.toInt64.toInt = n := by
  have lower : Int64.minValue.toInt = -2 ^ 63 := rfl
  have upper : Int64.maxValue.toInt = 2 ^ 63 - 1 := rfl
  have inside : max Int64.minValue.toInt (min n Int64.maxValue.toInt) = n := by
    rw [lower, upper]
    omega
  rw [toInt64, isNaN_of_isFinite (value?_eq_some.1 denotes).1, if_neg Bool.false_ne_true,
    (value?_eq_int_iff.1 denotes).2, inside, Int64.toInt_ofInt_of_le above below]

theorem toNat_toUInt64 (denotes : x.value? = some (n : ℚ)) (above : 0 ≤ n) (below : n < 2 ^ 64) :
    (x.toUInt64.toNat : Int) = n := by
  have size : UInt64.size = 2 ^ 64 := rfl
  have inside : min n.toNat (UInt64.size - 1) = n.toNat := by omega
  rw [toUInt64, isNaN_of_isFinite (value?_eq_some.1 denotes).1, if_neg Bool.false_ne_true,
    (value?_eq_int_iff.1 denotes).2, inside, UInt64.toNat_ofNat_of_lt' (by omega),
    Int.toNat_of_nonneg above]

end Binary64

namespace Value

/-- A guard that lets the whole numbers between two bounds pass, and a cast that keeps these numbers,
    make an exact conversion: its words are the numbers between the bounds. -/
theorem exact_of_guard {x : Binary64} {Word : Type} (number : Word → Int) (word : Word)
    (fault : Fault) {pass : Bool} {low high : Int}
    (passes : pass = true ↔ ∃ n : Int, x.value? = some (n : ℚ) ∧ low ≤ n ∧ n < high)
    (cast : ∀ n : Int, x.value? = some (n : ℚ) → low ≤ n → n < high → number word = n) :
    (∀ n : Int, (∃ found, (if pass then .ok (some word) else .error fault) =
          (.ok (some found) : Except Fault (Option Word)) ∧ number found = n) ↔
        x.value? = some (n : ℚ) ∧ low ≤ n ∧ n < high) ∧
    ((if pass then .ok (some word) else .error fault) =
        (.error fault : Except Fault (Option Word)) ↔
      ¬ ∃ n : Int, x.value? = some (n : ℚ) ∧ low ≤ n ∧ n < high) := by
  by_cases holds : ∃ n : Int, x.value? = some (n : ℚ) ∧ low ≤ n ∧ n < high
  · rw [if_pos (passes.2 holds)]
    obtain ⟨m, denotes, above, below⟩ := holds
    have kept := cast m denotes above below
    refine ⟨fun n => ⟨?_, ?_⟩, iff_of_false (by simp) fun none => none ⟨m, denotes, above, below⟩⟩
    · rintro ⟨found, eq, rfl⟩
      obtain rfl : word = found := by simpa using eq
      exact kept.symm ▸ ⟨denotes, above, below⟩
    · rintro ⟨same, -⟩
      -- A pattern denotes one number only.
      have one : m = n := Int.cast_injective (Option.some.inj (denotes.symm.trans same))
      exact ⟨word, rfl, kept.trans one⟩
  · rw [if_neg fun pass => holds (passes.1 pass)]
    refine ⟨fun n => ⟨?_, fun inside => absurd ⟨n, inside⟩ holds⟩, iff_of_true rfl holds⟩
    rintro ⟨found, eq, -⟩
    cases eq

/-- A floating point number is widened to a word exactly if its pattern denotes a whole number that
    the word holds, and then the word is this number. Every other pattern is refused. -/
theorem wholeFloat_exact (x : Binary64) :
    (∀ n : Int, (∃ word, (float x).toInt64 = .ok (some word) ∧ word.toInt = n) ↔
      x.value? = some (n : ℚ) ∧ -2 ^ 63 ≤ n ∧ n < 2 ^ 63) ∧
    (∀ n : Int, (∃ word, (float x).toUInt64 = .ok (some word) ∧ (word.toNat : Int) = n) ↔
      x.value? = some (n : ℚ) ∧ 0 ≤ n ∧ n < 2 ^ 64) ∧
    ((float x).toInt64 = .error (.unsupported "float64" "i64") ↔
      ¬ ∃ n : Int, x.value? = some (n : ℚ) ∧ -2 ^ 63 ≤ n ∧ n < 2 ^ 63) ∧
    ((float x).toUInt64 = .error (.unsupported "float64" "u64") ↔
      ¬ ∃ n : Int, x.value? = some (n : ℚ) ∧ 0 ≤ n ∧ n < 2 ^ 64) := by
  have signed := exact_of_guard Int64.toInt x.toInt64 (.unsupported "float64" "i64")
    (Binary64.passes_iff Binary64.value?_ofInt_minValue Binary64.value?_ofInt_maxValue)
    fun _ => Binary64.toInt_toInt64
  have unsigned := exact_of_guard (fun word => (word.toNat : Int)) x.toUInt64
    (.unsupported "float64" "u64")
    (Binary64.passes_iff Binary64.value?_zero Binary64.value?_ofInt_size)
    fun _ => Binary64.toNat_toUInt64
  exact ⟨signed.1, unsigned.1, signed.2, unsigned.2⟩

/-- Negative zero denotes zero. -/
example : (float (.zero true)).toInt64 = .ok (some 0) := by decide +kernel

end Value

end SqlMarshal
