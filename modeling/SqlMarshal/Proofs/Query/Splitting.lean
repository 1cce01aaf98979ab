import SqlMarshal.Query.Pieces

/-! # Splitting as a judgement

That a text falls into some pieces is a matter of each piece and the text behind it alone; offsets are
only for messages. A text that falls into pieces is those pieces put together.
-/

namespace SqlMarshal

/-- The text falls into the pieces, from left to right. -/
inductive Splits : List Char → List Piece → Prop where
  | done : Splits [] []
  | bare {c : Char} {rest : List Char} {others : List Piece} :
      Region.cut? (c :: rest) = .ok none → Splits rest others →
        Splits (c :: rest) (.bare c :: others)
  | region {inside rest : List Char} {others : List Piece} :
      Region.cut? (inside ++ rest) = .ok (some (inside, rest)) → Splits rest others →
        Splits (inside ++ rest) (.region inside :: others)

theorem Splits.bare_inv {text : List Char} {c : Char} {found : List Piece}
    (splits : Splits text (.bare c :: found)) :
    ∃ rest, text = c :: rest ∧ Region.cut? (c :: rest) = .ok none ∧ Splits rest found := by
  cases splits with
  | bare none others => exact ⟨_, rfl, none, others⟩

theorem Splits.region_inv {text inside : List Char} {found : List Piece}
    (splits : Splits text (.region inside :: found)) :
    ∃ rest, text = inside ++ rest ∧ Region.cut? (inside ++ rest) = .ok (some (inside, rest)) ∧
      Splits rest found := by
  cases splits with
  | region opens others => exact ⟨_, rfl, opens, others⟩

/-- The first pieces are a front of the text, and what stands behind it falls into the others. -/
theorem Splits.append_inv {text : List Char} {left right : List Piece}
    (splits : Splits text (left ++ right)) :
    ∃ rest, text = piecesText left ++ rest ∧ Splits rest right := by
  induction left generalizing text with
  | nil => exact ⟨text, rfl, splits⟩
  | cons piece left ih =>
      cases piece with
      | bare c =>
          obtain ⟨rest, rfl, -, others⟩ := splits.bare_inv
          obtain ⟨behind, rfl, later⟩ := ih others
          exact ⟨behind, by simp [piecesText, Piece.text], later⟩
      | region inside =>
          obtain ⟨rest, rfl, -, others⟩ := splits.region_inv
          obtain ⟨behind, rfl, later⟩ := ih others
          exact ⟨behind, by simp [piecesText, Piece.text], later⟩

theorem splits_of_splitFrom (offset : Nat) (text : List Char) {found : List Piece}
    (split : splitFrom offset text = (found, none)) : Splits text found := by
  fun_induction splitFrom offset text generalizing found with
  | case1 =>
      obtain ⟨rfl, -⟩ := Prod.mk.inj split
      exact .done
  | case2 => simp at split
  | case3 offset c rest bare others error tail ih =>
      obtain ⟨rfl, rfl⟩ := Prod.mk.inj split
      exact .bare bare (ih tail)
  | case4 offset c rest cut opens others error tail ih =>
      obtain ⟨rfl, rfl⟩ := Prod.mk.inj split
      have whole := (Region.cut?_split opens).1
      rw [← whole] at opens ⊢
      exact .region opens (ih tail)

theorem splitFrom_bare (offset : Nat) {c : Char} {rest : List Char}
    (bare : Region.cut? (c :: rest) = .ok none) :
    splitFrom offset (c :: rest) =
      (.bare c :: (splitFrom (offset + c.utf8Size) rest).1,
        (splitFrom (offset + c.utf8Size) rest).2) := by
  rw [splitFrom]
  split
  · rename_i unclosed
    simp [bare] at unclosed
  · rfl
  · rename_i opens
    simp [bare] at opens

theorem splitFrom_region (offset : Nat) {text : List Char} {cut : Cut}
    (opens : Region.cut? text = .ok (some cut)) :
    splitFrom offset text =
      (.region cut.1 :: (splitFrom (offset + Utf8.size cut.1) cut.2).1,
        (splitFrom (offset + Utf8.size cut.1) cut.2).2) := by
  cases text with
  | nil => simp [Region.cut?] at opens
  | cons c rest =>
      rw [splitFrom]
      split
      · rename_i unclosed
        simp [opens] at unclosed
      · rename_i bare
        simp [opens] at bare
      · rename_i cut' again
        obtain rfl : cut = cut' := by simpa [opens] using again
        rfl

theorem splitFrom_unclosed (offset : Nat) {text : List Char} {region : Unclosed}
    (unclosed : Region.cut? text = .error region) :
    splitFrom offset text = ([], some (.unclosed region offset)) := by
  cases text with
  | nil => simp [Region.cut?] at unclosed
  | cons c rest =>
      rw [splitFrom]
      split
      · rename_i region' again
        obtain rfl : region = region' := by simpa [unclosed] using again
        rfl
      · rename_i bare
        simp [unclosed] at bare
      · rename_i opens
        simp [unclosed] at opens

theorem Splits.splitFrom {text : List Char} {found : List Piece} (splits : Splits text found)
    (offset : Nat) : splitFrom offset text = (found, none) := by
  induction splits generalizing offset with
  | done => rw [SqlMarshal.splitFrom]
  | bare none _ ih => simp [splitFrom_bare offset none, ih]
  | region opens _ ih => simp [splitFrom_region offset opens, ih]

theorem piecesOf_iff {text : List Char} {found : List Piece} :
    piecesOf text = .ok found ↔ Splits text found := by
  unfold piecesOf
  constructor
  · intro split
    split at split
    · rename_i tail
      obtain rfl := Except.ok.inj split
      exact splits_of_splitFrom 0 text tail
    · simp at split
  · intro splits
    simp [splits.splitFrom]

theorem Splits.text {text : List Char} {found : List Piece} (splits : Splits text found) :
    piecesText found = text := by
  induction splits with
  | done => rfl
  | bare _ _ ih => simpa [piecesText, Piece.text] using ih
  | region _ _ ih => simpa [piecesText, Piece.text] using ih

end SqlMarshal
