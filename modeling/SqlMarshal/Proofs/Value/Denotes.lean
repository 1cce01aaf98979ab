import Mathlib.Data.Int.CharZero
import Mathlib.Data.List.Induction
import SqlMarshal.Proofs.Row.StagedStore

/-! # Whole numbers that values denote

A driver value may denote a whole number: as a word, or as text that spells it. What is spelled is
said by a grammar of its own, digit by digit and without regard to how it is read.

To widen a value to a word of 64 bits is to find the number that it denotes, so a number is refused
only if no word holds it. Floating point numbers are left out of all this; they denote nothing here,
though some of them can be widened.
-/

namespace SqlMarshal

/-! ## Numerals -/

namespace Decimal

/-- The ASCII digits of a text spell the number. -/
inductive Digits : List Char → Nat → Prop where
  | one {c : Char} (digit : c.isDigit) : Digits [c] (c.toNat - '0'.toNat)
  | more {text : List Char} {n : Nat} {c : Char} (before : Digits text n) (digit : c.isDigit) :
      Digits (text ++ [c]) (10 * n + (c.toNat - '0'.toNat))

/-- The text is a numeral of the number: digits after an optional sign, which is a minus sign only
    where numbers are signed. -/
inductive Numeral (signed : Bool) : List Char → Int → Prop where
  | bare {text : List Char} {n : Nat} : Digits text n → Numeral signed text n
  | plus {text : List Char} {n : Nat} : Digits text n → Numeral signed ('+' :: text) n
  | minus {text : List Char} {n : Nat} :
      signed → Digits text n → Numeral signed ('-' :: text) (-n)

/-- The text is a numeral with blanks around it. -/
def Spells (signed : Bool) (text : List Char) (n : Int) : Prop :=
  ∃ front numeral behind, text = front ++ numeral ++ behind ∧ Numeral signed numeral n ∧
    (∀ c ∈ front, isBlank c) ∧ ∀ c ∈ behind, isBlank c

section Numerals

variable {text : List Char} {n : Nat} {c : Char}

theorem Digits.all_isDigit (digits : Digits text n) : ∀ c ∈ text, c.isDigit := by
  induction digits with
  | one digit => simpa using digit
  | more _ digit ih =>
      intro c member
      rcases List.mem_append.1 member with before | last
      · exact ih c before
      · rwa [List.mem_singleton.1 last]

theorem Digits.ne_nil (digits : Digits text n) : text ≠ [] := by
  cases digits <;> simp

theorem Digits.ofDigitChars (digits : Digits text n) : Nat.ofDigitChars 10 text 0 = n := by
  induction digits with
  | one _ => simp [Nat.ofDigitChars]
  | more _ _ ih => rw [Nat.ofDigitChars_append, ih, Nat.ofDigitChars_cons, Nat.ofDigitChars_nil]

theorem digits_of_all (some : text ≠ []) (all : ∀ c ∈ text, c.isDigit) :
    Digits text (Nat.ofDigitChars 10 text 0) := by
  induction text using List.reverseRecOn with
  | nil => exact absurd rfl some
  | append_singleton before c ih =>
      have digit : c.isDigit := all c (by simp)
      by_cases first : before = []
      · subst first
        simpa [Nat.ofDigitChars] using Digits.one digit
      · have spelled := ih first fun c member => all c (List.mem_append_left _ member)
        rw [Nat.ofDigitChars_append, Nat.ofDigitChars_cons, Nat.ofDigitChars_nil]
        exact spelled.more digit

theorem readDigits?_eq_some : readDigits? text = some n ↔ Digits text n := by
  simp only [readDigits?, Bool.and_eq_true, List.all_eq_true, Bool.not_eq_true',
    List.isEmpty_eq_false_iff]
  constructor
  · intro reads
    split at reads
    · rename_i all
      rw [← Option.some.inj reads]
      exact digits_of_all all.1 all.2
    · simp at reads
  · intro digits
    rw [if_pos ⟨digits.ne_nil, digits.all_isDigit⟩, digits.ofDigitChars]

theorem Digits.ne_sign (digits : Digits text n) {sign : Char} (no : ¬ sign.isDigit)
    (rest : List Char) : text ≠ sign :: rest := by
  rintro rfl
  exact no (digits.all_isDigit sign (by simp))

theorem Numeral.signed {n : Int} (numeral : Numeral false text n) : Numeral true text n := by
  cases numeral with
  | bare digits => exact .bare digits
  | plus digits => exact .plus digits
  | minus signed _ => simp at signed

theorem readUnsigned?_eq_some :
    readUnsigned? text = some n ↔ Numeral false text n := by
  constructor
  · intro reads
    unfold readUnsigned? at reads
    split at reads
    · exact .plus (readDigits?_eq_some.1 reads)
    · exact .bare (readDigits?_eq_some.1 reads)
  · intro numeral
    generalize whole : (n : Int) = number at numeral
    cases numeral with
    | bare digits =>
        obtain rfl := Int.ofNat.inj whole
        rw [readUnsigned?, readDigits?_eq_some.2 digits]
        exact digits.ne_sign (by decide)
    | plus digits =>
        obtain rfl := Int.ofNat.inj whole
        exact readDigits?_eq_some.2 digits
    | minus signed _ => simp at signed

theorem readSigned?_minus (digits : List Char) :
    readSigned? ('-' :: digits) = (readDigits? digits).map fun n => -(Nat.cast n : Int) := by
  cases reads : readDigits? digits <;> simp [readSigned?, reads]

theorem readSigned?_unsigned (other : ∀ digits, text ≠ '-' :: digits) :
    readSigned? text = (readUnsigned? text).map Nat.cast := by
  rw [readSigned?]
  · cases reads : readUnsigned? text <;> simp
  · exact other

theorem readSigned?_eq_some {n : Int} : readSigned? text = some n ↔ Numeral true text n := by
  constructor
  · intro reads
    by_cases negative : ∃ digits, text = '-' :: digits
    · obtain ⟨digits, rfl⟩ := negative
      rw [readSigned?_minus] at reads
      obtain ⟨number, read, rfl⟩ := Option.map_eq_some_iff.1 reads
      exact .minus rfl (readDigits?_eq_some.1 read)
    · rw [readSigned?_unsigned fun digits same => negative ⟨digits, same⟩] at reads
      obtain ⟨number, read, rfl⟩ := Option.map_eq_some_iff.1 reads
      exact (readUnsigned?_eq_some.1 read).signed
  · intro numeral
    cases numeral with
    | bare digits =>
        rw [readSigned?_unsigned (digits.ne_sign (by decide)),
          readUnsigned?_eq_some.2 (.bare digits), Option.map_some]
    | plus digits =>
        rw [readSigned?_unsigned (by simp), readUnsigned?_eq_some.2 (.plus digits), Option.map_some]
    | minus _ digits => rw [readSigned?_minus, readDigits?_eq_some.2 digits, Option.map_some]

end Numerals

/-! ## Blanks around numerals -/

theorem not_isBlank {c : Char} (low : 33 ≤ c.toNat) (high : c.toNat < 133) : ¬ isBlank c := by
  have edges : blanks.edges.takeWhile (fun edge => decide (edge ≤ c.toNat)) = [9, 14, 32, 33] := by
    have below : ∀ n ≤ 33, n ≤ c.toNat := fun n small => Nat.le_trans small low
    have above : ¬ 133 ≤ c.toNat := Nat.not_le.2 high
    simp [blanks, List.takeWhile, below, above]
  simp [isBlank, CodePointSet.contains, edges]

theorem not_isBlank_of_isDigit {c : Char} (digit : c.isDigit) : ¬ isBlank c := by
  simp only [Char.isDigit, Bool.and_eq_true, decide_eq_true_eq, UInt32.le_iff_toNat_le] at digit
  obtain ⟨low, high⟩ := digit
  have low : 48 ≤ c.toNat := low
  have high : c.toNat ≤ 57 := high
  exact not_isBlank (by omega) (by omega)

theorem Numeral.not_isBlank {signed : Bool} {text : List Char} {n : Int}
    (numeral : Numeral signed text n) : ∀ c ∈ text, ¬ isBlank c := by
  have solid {digits : List Char} {n : Nat} (spelled : Digits digits n) :
      ∀ c ∈ digits, ¬ isBlank c :=
    fun c member => not_isBlank_of_isDigit (spelled.all_isDigit c member)
  cases numeral with
  | bare digits => exact solid digits
  | plus digits => exact List.forall_mem_cons.2 ⟨by decide, solid digits⟩
  | minus _ digits => exact List.forall_mem_cons.2 ⟨by decide, solid digits⟩

theorem Numeral.ne_nil {signed : Bool} {text : List Char} {n : Int}
    (numeral : Numeral signed text n) : text ≠ [] := by
  cases numeral with
  | bare digits => exact digits.ne_nil
  | plus | minus => simp

end Decimal

theorem dropWhile_isBlank {blank solid rest : List Char} (some : solid ≠ [])
    (inside : ∀ c ∈ solid, ¬ isBlank c) (around : ∀ c ∈ blank, isBlank c) :
    (blank ++ (solid ++ rest)).dropWhile isBlank = solid ++ rest := by
  rw [List.dropWhile_append_of_pos around]
  cases solid with
  | nil => exact absurd rfl some
  | cons c _ => exact List.dropWhile_cons_of_neg (inside c (by simp))

theorem trimBlanks_around {front solid behind : List Char} (some : solid ≠ [])
    (inside : ∀ c ∈ solid, ¬ isBlank c) (before : ∀ c ∈ front, isBlank c)
    (after : ∀ c ∈ behind, isBlank c) :
    trimBlanks (front ++ solid ++ behind) = solid := by
  have reversed :
      (behind.reverse ++ (solid.reverse ++ [])).dropWhile isBlank = solid.reverse ++ [] :=
    dropWhile_isBlank (by simpa using some)
      (fun c member => inside c (List.mem_reverse.1 member))
      fun c member => after c (List.mem_reverse.1 member)
  rw [List.append_nil] at reversed
  rw [trimBlanks, List.append_assoc, dropWhile_isBlank some inside before, List.reverse_append,
    reversed, List.reverse_reverse]

theorem exists_trimmed (text : List Char) :
    ∃ front behind, text = front ++ trimBlanks text ++ behind ∧ (∀ c ∈ front, isBlank c) ∧
      ∀ c ∈ behind, isBlank c := by
  let kept := text.dropWhile isBlank
  refine ⟨text.takeWhile isBlank, (kept.reverse.takeWhile isBlank).reverse, ?_, ?_, ?_⟩
  · rw [List.append_assoc, trimBlanks, ← List.reverse_append, List.takeWhile_append_dropWhile,
      List.reverse_reverse, List.takeWhile_append_dropWhile]
  · exact fun c member => List.all_eq_true.1 List.all_takeWhile c member
  · exact fun c member => List.all_eq_true.1 List.all_takeWhile c (List.mem_reverse.1 member)

namespace Decimal

/-- To read a number is to take the blanks off and find a numeral. -/
theorem spells_iff {signed : Bool} {text : List Char} {n : Int} :
    Spells signed text n ↔ Numeral signed (trimBlanks text) n := by
  constructor
  · rintro ⟨front, numeral, behind, rfl, spelled, before, after⟩
    rwa [trimBlanks_around spelled.ne_nil spelled.not_isBlank before after]
  · intro spelled
    obtain ⟨front, behind, split, before, after⟩ := exists_trimmed text
    exact ⟨front, _, behind, split, spelled, before, after⟩

end Decimal

/-! ## Values -/

namespace Value

/-- The value denotes the whole number: as a word, or as text that spells it. -/
inductive Denotes (signed : Bool) : Value → Int → Prop where
  | int (n : Int64) : Denotes signed (.int n) n.toInt
  | uint (n : UInt64) : Denotes signed (.uint n) n.toNat
  | text {s : String} {n : Int} : Decimal.Spells signed s.toList n → Denotes signed (.text s) n
  | bytes {s : String} {n : Int} :
      Decimal.Spells signed s.toList n → Denotes signed (.bytes (Utf8.encode s)) n

variable {signed : Bool} {v : Value} {n : Int}

theorem signedWord?_eq_some {word : Int64} : signedWord? n = some word ↔ word.toInt = n := by
  have lower : Int64.minValue.toInt = -2 ^ 63 := rfl
  have upper : Int64.maxValue.toInt = 2 ^ 63 - 1 := rfl
  rw [signedWord?, lower, upper]
  constructor
  · intro held
    split at held
    · rename_i range
      rw [← Option.some.inj held, Int64.toInt_ofInt_of_le range.1 (Int.lt_of_le_sub_one range.2)]
    · simp at held
  · rintro rfl
    rw [if_pos ⟨word.le_toInt, Int.le_sub_one_of_lt word.toInt_lt⟩, Int64.ofInt_toInt]

theorem unsignedWord?_eq_some {word : UInt64} :
    unsignedWord? n = some word ↔ (word.toNat : Int) = n := by
  rw [unsignedWord?]
  constructor
  · intro held
    split at held
    · rename_i range
      rw [← Option.some.inj held, UInt64.toNat_ofNat_of_lt' (by omega), Int.toNat_of_nonneg range.1]
    · simp at held
  · rintro rfl
    have small : word.toNat < UInt64.size := word.toNat_lt
    rw [if_pos ⟨by omega, by omega⟩, Int.toNat_natCast, UInt64.ofNat_toNat]

theorem denotes_iff_spelling (notInt : ∀ n, v ≠ .int n) (notUint : ∀ n, v ≠ .uint n) :
    v.Denotes signed n ↔
      ∃ s, v.spelling? = some s ∧ Decimal.Numeral signed (trimBlanks s.toList) n := by
  constructor
  · intro denotes
    cases denotes with
    | int n => exact absurd rfl (notInt n)
    | uint n => exact absurd rfl (notUint n)
    | text spelled => exact ⟨_, rfl, Decimal.spells_iff.1 spelled⟩
    | bytes spelled => exact ⟨_, Utf8.decode?_eq_some.2 rfl, Decimal.spells_iff.1 spelled⟩
  · rintro ⟨s, spelling, numeral⟩
    cases v with
    | text =>
        obtain rfl := Option.some.inj spelling
        exact .text (Decimal.spells_iff.2 numeral)
    | bytes =>
        obtain rfl := Utf8.decode?_eq_some.1 spelling
        exact .bytes (Decimal.spells_iff.2 numeral)
    | _ => simp [spelling?] at spelling

theorem readSpelling_eq_some {α : Type} {target : String} {read : List Char → Option α} {a : α} :
    v.readSpelling target read = .ok (some a) ↔
      ∃ s, v.spelling? = some s ∧ read (trimBlanks s.toList) = some a := by
  rw [readSpelling, ← Option.bind_eq_some_iff]
  cases v.spelling?.bind fun s => read (trimBlanks s.toList) <;> simp [refuse]

/-! ## Words -/

theorem denotes_int {word : Int64} : (int word).Denotes signed n ↔ word.toInt = n := by
  constructor
  · intro denotes
    cases denotes
    rfl
  · rintro rfl
    exact .int word

theorem denotes_uint {word : UInt64} : (uint word).Denotes signed n ↔ (word.toNat : Int) = n := by
  constructor
  · intro denotes
    cases denotes
    rfl
  · rintro rfl
    exact .uint word

theorem toInt64_eq_some (notFloat : ∀ x, v ≠ .float x) {word : Int64} :
    v.toInt64 = .ok (some word) ↔ v.Denotes true word.toInt := by
  cases v with
  | float x => exact absurd rfl (notFloat x)
  | null => exact iff_of_false (by simp [toInt64]) nofun
  | int held => simp [toInt64, denotes_int, Int64.toInt_inj]
  | uint held =>
      rw [denotes_uint, @eq_comm Int, ← signedWord?_eq_some, toInt64]
      cases signedWord? held.toNat <;> simp
  | _ =>
      rw [denotes_iff_spelling (by simp) (by simp)]
      simp [toInt64, readSpelling_eq_some, Option.bind_eq_some_iff, signedWord?_eq_some,
        Decimal.readSigned?_eq_some]

theorem toUInt64_eq_some (notFloat : ∀ x, v ≠ .float x) {word : UInt64} :
    v.toUInt64 = .ok (some word) ↔ v.Denotes false word.toNat := by
  cases v with
  | float x => exact absurd rfl (notFloat x)
  | null => exact iff_of_false (by simp [toUInt64]) nofun
  | uint held => simp [toUInt64, denotes_uint, UInt64.toNat_inj]
  | int held =>
      rw [denotes_int, @eq_comm Int, ← unsignedWord?_eq_some, toUInt64]
      cases unsignedWord? held.toInt <;> simp
  | _ =>
      rw [denotes_iff_spelling (by simp) (by simp)]
      simp [toUInt64, readSpelling_eq_some, Option.bind_eq_some_iff, unsignedWord?_eq_some,
        ← Decimal.readUnsigned?_eq_some]

end Value

end SqlMarshal
