import Mathlib.Tactic.SplitIfs
import SqlMarshal.Text.Utf8

/-! # Encoded text reads back

The byte machine undoes the encoding of every text. What carries the proof is one fact about one
character: from the start of a character the machine consumes exactly the bytes of that character,
yields it, and is at the start again. The excluded ranges of the first continuation byte (overlong
forms, surrogates, numbers beyond U+10FFFF) never bite, since a character is a scalar value.

For the same ranges nothing else decodes: bytes that the machine reads as characters only are the
encoding of those characters.
-/

namespace SqlMarshal.Utf8

theorem read_cons (state : State) (byte : UInt8) (rest : List UInt8) :
    read state (byte :: rest) = (step state byte).1 ++ read (step state byte).2 rest := by
  cases state <;> rfl

theorem toNat_byte {n : Nat} (small : n < 256) : (UInt8.ofNat n).toNat = n := by
  simpa using small

theorem continuation_byte {p : Nat} (small : p < 64) :
    0x80 ≤ UInt8.ofNat (p + 0x80) ∧ UInt8.ofNat (p + 0x80) ≤ 0xBF ∧
      (UInt8.ofNat (p + 0x80)).toNat - 0x80 = p := by
  have number : (UInt8.ofNat (p + 0x80)).toNat = p + 0x80 := toNat_byte (by omega)
  refine ⟨?_, ?_, ?_⟩
  · simp only [UInt8.le_iff_toNat_le, number, UInt8.reduceToNat]
    omega
  · simp only [UInt8.le_iff_toNat_le, number, UInt8.reduceToNat]
    omega
  · omega

theorem step_last {low high byte : UInt8} (point : Nat) (lower : low ≤ byte)
    (upper : byte ≤ high) :
    step (.within 0 low high point) byte =
      ([some (Char.ofNat (point * 64 + (byte.toNat - 0x80)))], .start) := by
  simp only [step, lower, upper, and_self, if_true]

theorem step_continues {low high byte : UInt8} (more point : Nat) (lower : low ≤ byte)
    (upper : byte ≤ high) :
    step (.within (more + 1) low high point) byte =
      ([], .within more 0x80 0xBF (point * 64 + (byte.toNat - 0x80))) := by
  simp only [step, lower, upper, and_self, if_true]

theorem begin_two {n : Nat} (lower : 2 ≤ n) (upper : n < 32) :
    begin (UInt8.ofNat (n + 0xC0)) = ([], .within 0 0x80 0xBF n) := by
  have number : (UInt8.ofNat (n + 0xC0)).toNat = n + 0xC0 := toNat_byte (by omega)
  simp only [begin, UInt8.lt_iff_toNat_lt, number, UInt8.reduceToNat]
  rw [if_neg (by omega), if_neg (by omega), if_pos (by omega), Nat.add_sub_cancel]

theorem begin_three {n p : Nat} (lead : n < 16) (next : p < 64) (wide : 32 ≤ n * 64 + p)
    (scalar : n * 64 + p < 864 ∨ 896 ≤ n * 64 + p) :
    ∃ low high, begin (UInt8.ofNat (n + 0xE0)) = ([], .within 1 low high n) ∧
      low ≤ UInt8.ofNat (p + 0x80) ∧ UInt8.ofNat (p + 0x80) ≤ high := by
  have leadNumber : (UInt8.ofNat (n + 0xE0)).toNat = n + 0xE0 := toNat_byte (by omega)
  have nextNumber : (UInt8.ofNat (p + 0x80)).toNat = p + 0x80 := toNat_byte (by omega)
  simp only [begin, UInt8.lt_iff_toNat_lt, UInt8.le_iff_toNat_le, ← UInt8.toNat_inj, leadNumber,
    nextNumber, UInt8.reduceToNat]
  rw [if_neg (by omega), if_neg (by omega), if_neg (by omega)]
  split_ifs with zero thirteen
  · obtain rfl : n = 0 := by omega
    exact ⟨0xA0, 0xBF, rfl, by simp; omega, by simp; omega⟩
  · obtain rfl : n = 13 := by omega
    exact ⟨0x80, 0x9F, rfl, by simp, by simp; omega⟩
  · exact ⟨0x80, 0xBF, by rw [Nat.add_sub_cancel], by simp, by simp; omega⟩
  all_goals omega

theorem begin_four {n p : Nat} (lead : n < 5) (next : p < 64) (wide : 16 ≤ n * 64 + p)
    (scalar : n * 64 + p < 272) :
    ∃ low high, begin (UInt8.ofNat (n + 0xF0)) = ([], .within 2 low high n) ∧
      low ≤ UInt8.ofNat (p + 0x80) ∧ UInt8.ofNat (p + 0x80) ≤ high := by
  have leadNumber : (UInt8.ofNat (n + 0xF0)).toNat = n + 0xF0 := toNat_byte (by omega)
  have nextNumber : (UInt8.ofNat (p + 0x80)).toNat = p + 0x80 := toNat_byte (by omega)
  simp only [begin, UInt8.lt_iff_toNat_lt, UInt8.le_iff_toNat_le, ← UInt8.toNat_inj, leadNumber,
    nextNumber, UInt8.reduceToNat]
  rw [if_neg (by omega), if_neg (by omega), if_neg (by omega), if_neg (by omega),
    if_neg (by omega), if_neg (by omega)]
  split_ifs with zero less four
  · obtain rfl : n = 0 := by omega
    exact ⟨0x90, 0xBF, rfl, by simp; omega, by simp; omega⟩
  · exact ⟨0x80, 0xBF, by rw [Nat.add_sub_cancel], by simp, by simp; omega⟩
  · obtain rfl : n = 4 := by omega
    exact ⟨0x80, 0x8F, rfl, by simp, by simp; omega⟩
  · omega

/-- Between two characters the machine reads the bytes of one character as that character and is
    between two characters again. -/
theorem read_char (c : Char) (rest : List UInt8) :
    read .start (String.utf8EncodeChar c ++ rest) = some c :: read .start rest := by
  have valid : c.val.toNat < 0xD800 ∨ 0xDFFF < c.val.toNat ∧ c.val.toNat < 0x110000 := c.valid
  obtain ⟨v, hv⟩ : ∃ v, v = c.val.toNat := ⟨_, rfl⟩
  have same : Char.ofNat v = c := by
    rw [hv]
    exact Char.ofNat_toNat c
  simp only [String.utf8EncodeChar]
  rw [← hv] at valid ⊢
  split_ifs with one two three
  · have number : (UInt8.ofNat v).toNat = v := toNat_byte (by omega)
    have small : UInt8.ofNat v < 0x80 := by
      simp only [UInt8.lt_iff_toNat_lt, number, UInt8.reduceToNat]
      omega
    simp only [List.cons_append, List.nil_append, read_cons, step, begin, small, if_true, number,
      same]
  · obtain ⟨lower, upper, number⟩ := continuation_byte (p := v % 64) (by omega)
    simp only [List.cons_append, List.nil_append, read_cons, step.eq_1,
      begin_two (n := v / 64 % 32) (by omega) (by omega), step_last _ lower upper, number]
    rw [show v / 64 % 32 * 64 + v % 64 = v from by omega, same]
  · obtain ⟨low, high, lead, lower, upper⟩ := begin_three (n := v / 4096 % 16)
      (p := v / 64 % 64) (by omega) (by omega) (by omega) (by omega)
    obtain ⟨-, -, middle⟩ := continuation_byte (p := v / 64 % 64) (by omega)
    obtain ⟨lower', upper', number⟩ := continuation_byte (p := v % 64) (by omega)
    simp only [List.cons_append, List.nil_append, read_cons, step.eq_1, lead,
      step_continues _ _ lower upper, step_last _ lower' upper', number, middle]
    rw [show (v / 4096 % 16 * 64 + v / 64 % 64) * 64 + v % 64 = v from by omega, same]
  · obtain ⟨low, high, lead, lower, upper⟩ := begin_four (n := v / 262144 % 8)
      (p := v / 4096 % 64) (by omega) (by omega) (by omega) (by omega)
    obtain ⟨-, -, first⟩ := continuation_byte (p := v / 4096 % 64) (by omega)
    obtain ⟨lower', upper', second⟩ := continuation_byte (p := v / 64 % 64) (by omega)
    obtain ⟨lower'', upper'', number⟩ := continuation_byte (p := v % 64) (by omega)
    simp only [List.cons_append, List.nil_append, read_cons, step.eq_1, lead,
      step_continues _ _ lower upper, step_continues _ _ lower' upper',
      step_last _ lower'' upper'', number, first, second]
    rw [show ((v / 262144 % 8 * 64 + v / 4096 % 64) * 64 + v / 64 % 64) * 64 + v % 64 = v
      from by omega, same]

theorem read_chars (text : List Char) :
    read .start (text.flatMap String.utf8EncodeChar) = text.map some := by
  induction text with
  | nil => rfl
  | cons c rest ih => rw [List.flatMap_cons, read_char, ih, List.map_cons]

theorem decodeReplacing_encode (text : String) : decodeReplacing (encode text) = text := by
  simp [decodeReplacing, encode, read_chars, Function.comp_def]

theorem encode_injective {left right : String} (same : encode left = encode right) :
    left = right := by
  rw [← decodeReplacing_encode left, same, decodeReplacing_encode]

theorem encode_append (left right : String) :
    encode (left ++ right) = encode left ++ encode right := by
  simp [encode]

theorem length_encodeChars (text : List Char) :
    (text.flatMap String.utf8EncodeChar).length = size text := by
  induction text with
  | nil => rfl
  | cons c rest ih => simp [size, ih]

theorem size_append (left right : List Char) : size (left ++ right) = size left + size right := by
  induction left with
  | nil => simp [size]
  | cons c rest ih =>
      simp only [List.cons_append, size, ih]
      omega

theorem size_reverse (text : List Char) : size text.reverse = size text := by
  induction text with
  | nil => rfl
  | cons c rest ih => simp [size_append, size, ih, Nat.add_comm]

/-! ## What decodes is encoded text -/

section Decoded

variable {more point : Nat} {low high : UInt8} {bytes : List UInt8} {text : List Char}

theorem exists_continuation
    (reads : read (.within more low high point) bytes = text.map some) :
    ∃ byte rest, bytes = byte :: rest ∧ low ≤ byte ∧ byte ≤ high := by
  cases bytes with
  | nil => cases text <;> simp [read] at reads
  | cons byte rest =>
      by_cases fits : low ≤ byte ∧ byte ≤ high
      · exact ⟨byte, rest, rfl, fits⟩
      · rw [read_cons, step, if_neg fits] at reads
        cases text <;> simp at reads

theorem exists_last (reads : read (.within 0 low high point) bytes = text.map some) :
    ∃ byte rest tail, bytes = byte :: rest ∧ (low ≤ byte ∧ byte ≤ high) ∧
      text = Char.ofNat (point * 64 + (byte.toNat - 0x80)) :: tail ∧
      read .start rest = tail.map some := by
  obtain ⟨byte, rest, rfl, lower, upper⟩ := exists_continuation reads
  rw [read_cons, step_last _ lower upper, List.singleton_append] at reads
  cases text with
  | nil => simp at reads
  | cons c tail =>
      obtain ⟨here, later⟩ := List.cons.inj reads
      exact ⟨byte, rest, tail, rfl, ⟨lower, upper⟩, by rw [Option.some.inj here], later⟩

theorem exists_next (reads : read (.within (more + 1) low high point) bytes = text.map some) :
    ∃ byte rest, bytes = byte :: rest ∧ (low ≤ byte ∧ byte ≤ high) ∧
      read (.within more 0x80 0xBF (point * 64 + (byte.toNat - 0x80))) rest = text.map some := by
  obtain ⟨byte, rest, rfl, lower, upper⟩ := exists_continuation reads
  rw [read_cons, step_continues _ _ lower upper, List.nil_append] at reads
  exact ⟨byte, rest, rfl, ⟨lower, upper⟩, reads⟩

theorem val_ofNat {v : Nat} (scalar : v < 0xD800 ∨ 0xDFFF < v ∧ v < 0x110000) :
    (Char.ofNat v).val.toNat = v := by
  have valid : v.isValidChar := scalar
  rw [Char.ofNat, dif_pos valid]
  rfl

theorem byte_eq (byte : UInt8) {n : Nat} (same : byte.toNat = n) : UInt8.ofNat n = byte := by
  rw [← same, UInt8.ofNat_toNat]

theorem encodeChar_one {byte : UInt8} (ascii : byte < 0x80) :
    String.utf8EncodeChar (Char.ofNat byte.toNat) = [byte] := by
  simp only [UInt8.lt_iff_toNat_lt, UInt8.reduceToNat] at ascii
  rw [String.utf8EncodeChar, val_ofNat (by omega), if_pos (by omega), byte_eq byte rfl]

theorem encodeChar_two {a b : UInt8} (lower : ¬ a < 0xC2) (upper : a < 0xE0)
    (next : 0x80 ≤ b ∧ b ≤ 0xBF) :
    String.utf8EncodeChar (Char.ofNat ((a.toNat - 0xC0) * 64 + (b.toNat - 0x80))) = [a, b] := by
  simp only [UInt8.lt_iff_toNat_lt, UInt8.le_iff_toNat_le, UInt8.reduceToNat] at lower upper next
  rw [String.utf8EncodeChar, val_ofNat (by omega), if_neg (by omega), if_pos (by omega)]
  rw [byte_eq a (by omega), byte_eq b (by omega)]

theorem encodeChar_three {a b c : UInt8} {n : Nat} (lead : a.toNat = n + 0xE0) (small : n < 16)
    (second : 0x80 ≤ b ∧ b ≤ 0xBF) (third : 0x80 ≤ c ∧ c ≤ 0xBF)
    (wide : n = 0 → 0xA0 ≤ b) (scalar : n = 13 → b ≤ 0x9F) :
    String.utf8EncodeChar
        (Char.ofNat ((n * 64 + (b.toNat - 0x80)) * 64 + (c.toNat - 0x80))) = [a, b, c] := by
  simp only [UInt8.le_iff_toNat_le, UInt8.reduceToNat] at second third wide scalar
  rw [String.utf8EncodeChar, val_ofNat (by omega), if_neg (by omega), if_neg (by omega),
    if_pos (by omega)]
  rw [byte_eq a (by omega), byte_eq b (by omega),
    byte_eq c (by omega)]

theorem encodeChar_four {a b c e : UInt8} {n : Nat} (lead : a.toNat = n + 0xF0) (small : n < 5)
    (second : 0x80 ≤ b ∧ b ≤ 0xBF) (third : 0x80 ≤ c ∧ c ≤ 0xBF) (fourth : 0x80 ≤ e ∧ e ≤ 0xBF)
    (wide : n = 0 → 0x90 ≤ b) (scalar : n = 4 → b ≤ 0x8F) :
    String.utf8EncodeChar
        (Char.ofNat (((n * 64 + (b.toNat - 0x80)) * 64 + (c.toNat - 0x80)) * 64
          + (e.toNat - 0x80))) = [a, b, c, e] := by
  simp only [UInt8.le_iff_toNat_le, UInt8.reduceToNat] at second third fourth wide scalar
  rw [String.utf8EncodeChar, val_ofNat (by omega), if_neg (by omega), if_neg (by omega),
    if_neg (by omega)]
  rw [byte_eq a (by omega), byte_eq b (by omega),
    byte_eq c (by omega), byte_eq e (by omega)]

theorem exists_three {n : Nat} {a : UInt8} (lead : a.toNat = n + 0xE0) (small : n < 16)
    (within : ∀ b, low ≤ b ∧ b ≤ high →
      (0x80 ≤ b ∧ b ≤ 0xBF) ∧ (n = 0 → 0xA0 ≤ b) ∧ (n = 13 → b ≤ 0x9F))
    (reads : read (.within 1 low high n) bytes = text.map some) :
    ∃ c tail rest, text = c :: tail ∧ a :: bytes = String.utf8EncodeChar c ++ rest ∧
      read .start rest = tail.map some := by
  obtain ⟨b, bytes, rfl, second, reads⟩ := exists_next reads
  obtain ⟨c, rest, tail, rfl, third, rfl, later⟩ := exists_last reads
  obtain ⟨range, wide, scalar⟩ := within b second
  exact ⟨_, tail, rest, rfl, by rw [encodeChar_three lead small range third wide scalar]; rfl,
    later⟩

theorem exists_four {n : Nat} {a : UInt8} (lead : a.toNat = n + 0xF0) (small : n < 5)
    (within : ∀ b, low ≤ b ∧ b ≤ high →
      (0x80 ≤ b ∧ b ≤ 0xBF) ∧ (n = 0 → 0x90 ≤ b) ∧ (n = 4 → b ≤ 0x8F))
    (reads : read (.within 2 low high n) bytes = text.map some) :
    ∃ c tail rest, text = c :: tail ∧ a :: bytes = String.utf8EncodeChar c ++ rest ∧
      read .start rest = tail.map some := by
  obtain ⟨b, bytes, rfl, second, reads⟩ := exists_next reads
  obtain ⟨c, bytes, rfl, third, reads⟩ := exists_next reads
  obtain ⟨e, rest, tail, rfl, fourth, rfl, later⟩ := exists_last reads
  obtain ⟨range, wide, scalar⟩ := within b second
  refine ⟨_, tail, rest, rfl, ?_, later⟩
  rw [encodeChar_four lead small range third fourth wide scalar]
  rfl

/-- Bytes that read as characters only begin with the encoding of the first one. -/
theorem exists_char {byte : UInt8} (reads : read .start (byte :: bytes) = text.map some) :
    ∃ c tail rest, text = c :: tail ∧ byte :: bytes = String.utf8EncodeChar c ++ rest ∧
      read .start rest = tail.map some := by
  rw [read_cons, step.eq_1, begin] at reads
  split_ifs at reads with ascii stray two e0 ed three f0 four f4
  · cases text with
    | nil => simp at reads
    | cons c tail =>
        obtain ⟨here, later⟩ := List.cons.inj reads
        refine ⟨c, tail, bytes, rfl, ?_, later⟩
        rw [← Option.some.inj here, encodeChar_one ascii]
        rfl
  · cases text <;> simp at reads
  · obtain ⟨b, rest, tail, rfl, next, rfl, later⟩ := exists_last reads
    exact ⟨_, tail, rest, rfl, by rw [encodeChar_two stray two next]; rfl, later⟩
  all_goals simp only [UInt8.lt_iff_toNat_lt, ← UInt8.toNat_inj, UInt8.reduceToNat] at *
  · refine exists_three (n := 0) (by omega) (by omega) (fun b range => ?_) reads
    simp only [UInt8.le_iff_toNat_le, UInt8.reduceToNat] at *
    omega
  · refine exists_three (n := 13) (by omega) (by omega) (fun b range => ?_) reads
    simp only [UInt8.le_iff_toNat_le, UInt8.reduceToNat] at *
    omega
  · refine exists_three (by omega) (by omega) (fun b range => ?_) reads
    simp only [UInt8.le_iff_toNat_le, UInt8.reduceToNat] at *
    omega
  · refine exists_four (n := 0) (by omega) (by omega) (fun b range => ?_) reads
    simp only [UInt8.le_iff_toNat_le, UInt8.reduceToNat] at *
    omega
  · refine exists_four (by omega) (by omega) (fun b range => ?_) reads
    simp only [UInt8.le_iff_toNat_le, UInt8.reduceToNat] at *
    omega
  · refine exists_four (n := 4) (by omega) (by omega) (fun b range => ?_) reads
    simp only [UInt8.le_iff_toNat_le, UInt8.reduceToNat] at *
    omega
  · cases text <;> simp at reads

theorem eq_encodeChars (reads : read .start bytes = text.map some) :
    bytes = text.flatMap String.utf8EncodeChar := by
  induction text generalizing bytes with
  | nil =>
      cases bytes with
      | nil => rfl
      | cons byte bytes =>
          obtain ⟨c, tail, rest, other, -⟩ := exists_char reads
          simp at other
  | cons c tail ih =>
      cases bytes with
      | nil => simp [read] at reads
      | cons byte bytes =>
          obtain ⟨c', tail', rest, same, split, later⟩ := exists_char reads
          obtain ⟨rfl, rfl⟩ := List.cons.inj same
          rw [split, ih later, List.flatMap_cons]

end Decoded

theorem mapM_id_eq_some {α : Type} {found : List (Option α)} {all : List α} :
    found.mapM id = some all ↔ found = all.map some := by
  induction found generalizing all with
  | nil => cases all <;> simp
  | cons head rest ih =>
      cases head with
      | none => cases all <;> simp
      | some first =>
          cases later : rest.mapM id with
          | none => cases all <;> simp [later, ← ih]
          | some others => cases all <;> simp [later, ← ih]

/-- The bytes that decode are the encodings of texts. -/
theorem decode?_eq_some {bytes : List UInt8} {text : String} :
    decode? bytes = some text ↔ bytes = encode text := by
  constructor
  · intro decodes
    obtain ⟨chars, reads, rfl⟩ := Option.map_eq_some_iff.1 decodes
    rw [encode, String.toList_ofList]
    exact eq_encodeChars (mapM_id_eq_some.1 reads)
  · rintro rfl
    refine Option.map_eq_some_iff.2 ⟨text.toList, ?_, String.ofList_toList⟩
    exact mapM_id_eq_some.2 (read_chars _)

end SqlMarshal.Utf8
