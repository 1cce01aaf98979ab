import SqlMarshal.Proofs.Text.Utf8RoundTrip
import SqlMarshal.Query.Region

/-! # Places in encoded text

Where the characters of a text begin in bytes is a growing list of offsets, so an offset leads back to
the number of characters before it. A text that is looked for in the bytes of another one is found
where it is found among the characters: the first byte of a character is never taken for one further
inside, so no occurrence begins between two characters.
-/

namespace SqlMarshal

namespace Utf8

/-- Where the characters of a text begin, the first of them at an offset. -/
def offsets : (offset : Nat) → List Char → List Nat
  | _, [] => []
  | offset, c :: rest => offset :: offsets (offset + c.utf8Size) rest

/-- The first place in some bytes at which other bytes stand. -/
def find? (wanted : List UInt8) : List UInt8 → Option Nat
  | [] => if wanted = [] then some 0 else none
  | byte :: rest =>
      if wanted.isPrefixOf (byte :: rest) then some 0 else (find? wanted rest).map (· + 1)

/-- An offset does not lie inside of a character of the text, nor behind the text. -/
def IsBoundary (text : String) (offset : Nat) : Prop :=
  (⟨offset⟩ : String.Pos.Raw).IsValid text

/-! ## From characters to bytes and back -/

theorem utf8ByteSize_ofChars (text : List Char) : (String.ofList text).utf8ByteSize = size text := by
  induction text with
  | nil => rfl
  | cons c rest ih =>
      rw [size, ← ih, ← List.singleton_append, String.ofList_append, String.utf8ByteSize_append]
      simp

theorem isBoundary_of_append {text : String} {front behind : List Char}
    (whole : text.toList = front ++ behind) : IsBoundary text (size front) := by
  rw [IsBoundary, String.Pos.Raw.isValid_iff_exists_take_toList]
  exact ⟨front.length, by rw [whole, List.take_left, utf8ByteSize_ofChars]⟩

theorem offsets_append (offset : Nat) (front behind : List Char) :
    offsets offset (front ++ behind) =
      offsets offset front ++ offsets (offset + size front) behind := by
  induction front generalizing offset with
  | nil => rfl
  | cons c front ih => simp only [List.cons_append, offsets, ih, size, Nat.add_assoc]

theorem length_offsets (offset : Nat) (text : List Char) :
    (offsets offset text).length = text.length := by
  induction text generalizing offset with
  | nil => rfl
  | cons c rest ih => simp only [offsets, List.length_cons, ih]

theorem lt_of_mem_offsets {offset start : Nat} {text : List Char}
    (member : start ∈ offsets offset text) : start < offset + size text := by
  induction text generalizing offset with
  | nil => simp [offsets] at member
  | cons c rest ih =>
      have wide := c.utf8Size_pos
      rw [size]
      rcases List.mem_cons.1 member with rfl | later
      · omega
      · have before := ih later
        omega

theorem getD_offsets (front behind : List Char) :
    ((offsets 0 (front ++ behind))[front.length]?).getD (size (front ++ behind)) = size front := by
  rw [offsets_append, ← length_offsets 0 front, List.getElem?_append_right (Nat.le_refl _),
    Nat.sub_self, Nat.zero_add]
  cases behind with
  | nil => simp [offsets]
  | cons c rest => simp [offsets]

theorem takeWhile_offsets (front behind : List Char) :
    ((offsets 0 (front ++ behind)).takeWhile (· < size front)).length = front.length := by
  have before : ∀ start ∈ offsets 0 front, decide (start < size front) = true :=
    fun start member => by simpa using lt_of_mem_offsets member
  have after : (offsets (0 + size front) behind).takeWhile (· < size front) = [] := by
    cases behind with
    | nil => rfl
    | cons c rest => simp [offsets]
  rw [offsets_append, List.takeWhile_append_of_pos before, after, List.append_nil, length_offsets]

/-! ## Looking for a text in bytes -/

theorem prefix_of_encodeChars {front text : List Char}
    (before : front.flatMap String.utf8EncodeChar <+: text.flatMap String.utf8EncodeChar) :
    front <+: text := by
  obtain ⟨tail, whole⟩ := before
  induction front generalizing text with
  | nil => exact List.nil_prefix
  | cons c front ih =>
      rw [List.flatMap_cons, List.append_assoc] at whole
      have read := congrArg (Utf8.read .start) whole
      rw [read_char, read_chars] at read
      cases text with
      | nil => simp at read
      | cons d text =>
          obtain rfl := Option.some.inj (List.cons.inj read).1
          rw [List.flatMap_cons] at whole
          exact (List.prefix_cons_inj c).2 (ih (List.append_cancel_left whole))

theorem encodeChars_prefix_iff {front text : List Char} :
    front.flatMap String.utf8EncodeChar <+: text.flatMap String.utf8EncodeChar ↔ front <+: text := by
  refine ⟨prefix_of_encodeChars, ?_⟩
  rintro ⟨behind, rfl⟩
  rw [List.flatMap_append]
  exact List.prefix_append ..

/-- Bytes that begin like a character do not stand inside of one. -/
theorem not_prefix_inside {c d : Char} {others rest : List UInt8} {place : Nat}
    (inside : 0 < place) (short : place < (String.utf8EncodeChar d).length) :
    ¬ String.utf8EncodeChar c ++ others <+: (String.utf8EncodeChar d ++ rest).drop place := by
  rintro ⟨tail, whole⟩
  have positive : 0 < (String.utf8EncodeChar c).length := by
    rw [String.length_utf8EncodeChar]
    exact c.utf8Size_pos
  have same := congrArg (·[0]?) whole
  simp only [List.append_assoc, List.getElem?_append_left positive, List.getElem?_drop,
    Nat.add_zero, List.getElem?_append_left short] at same
  rw [List.getElem?_eq_getElem positive, List.getElem?_eq_getElem short] at same
  have begins : (String.utf8EncodeChar c)[0].IsUTF8FirstByte :=
    UInt8.isUTF8FirstByte_getElem_utf8EncodeChar.2 rfl
  rw [Option.some.inj same, UInt8.isUTF8FirstByte_getElem_utf8EncodeChar] at begins
  omega

theorem find?_here {wanted bytes : List UInt8} (here : wanted <+: bytes) :
    find? wanted bytes = some 0 := by
  cases bytes with
  | nil => rw [find?, if_pos (List.prefix_nil.1 here)]
  | cons byte rest => rw [find?, if_pos (List.isPrefixOf_iff_prefix.2 here)]

theorem find?_behind {wanted skipped rest : List UInt8}
    (nowhere : ∀ place < skipped.length, ¬ wanted <+: (skipped ++ rest).drop place) :
    find? wanted (skipped ++ rest) = (find? wanted rest).map (· + skipped.length) := by
  induction skipped with
  | nil => simp
  | cons byte skipped ih =>
      have here : ¬ wanted.isPrefixOf (byte :: (skipped ++ rest)) := fun found =>
        nowhere 0 (Nat.succ_pos _) (List.isPrefixOf_iff_prefix.1 found)
      have later := ih fun place inside => by
        simpa using nowhere (place + 1) (Nat.succ_lt_succ inside)
      rw [List.cons_append, find?, if_neg here, later, Option.map_map]
      exact congrArg (Option.map · _) (funext fun place => by simp [Nat.add_assoc])

/-- A text is found in the bytes where it is found among the characters, and ends at the same
    place. -/
theorem find?_encodeChars {mark : List Char} (marked : mark ≠ []) (text : List Char) :
    (find? (mark.flatMap String.utf8EncodeChar) (text.flatMap String.utf8EncodeChar)).map
        (· + size mark) =
      (Region.closeMark? mark text).map fun cut => size cut.1 := by
  obtain ⟨first, others, rfl⟩ := List.exists_cons_of_ne_nil marked
  fun_induction Region.closeMark? (first :: others) text with
  | case1 => contradiction
  | case2 =>
      have long : (first :: others).flatMap String.utf8EncodeChar ≠ [] := fun empty => by
        have bytes := congrArg List.length empty
        have wide := first.utf8Size_pos
        simp only [length_encodeChars, size, List.length_nil] at bytes
        omega
      rw [List.flatMap_nil, find?, if_neg long]
      rfl
  | case3 c rest here =>
      rw [find?_here (encodeChars_prefix_iff.2 (List.isPrefixOf_iff_prefix.1 here))]
      exact congrArg some (Nat.zero_add _)
  | case4 c rest elsewhere ih =>
      have nowhere : ∀ place < (String.utf8EncodeChar c).length,
          ¬ (first :: others).flatMap String.utf8EncodeChar <+:
            (String.utf8EncodeChar c ++ rest.flatMap String.utf8EncodeChar).drop place := by
        intro place short found
        rcases Nat.eq_zero_or_pos place with rfl | inside
        · rw [List.drop_zero, ← List.flatMap_cons] at found
          exact elsewhere (List.isPrefixOf_iff_prefix.2 (encodeChars_prefix_iff.1 found))
        · exact not_prefix_inside inside short found
      have later := congrArg (Option.map (c.utf8Size + ·)) ih
      rw [List.flatMap_cons (x := c), find?_behind nowhere, String.length_utf8EncodeChar]
      simpa [Function.comp_def, Cut.cons, size, Nat.add_assoc, Nat.add_comm, Nat.add_left_comm]
        using later

end Utf8

end SqlMarshal
