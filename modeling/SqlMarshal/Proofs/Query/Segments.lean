import SqlMarshal.Proofs.Query.Locality
import SqlMarshal.Proofs.Query.Splitting
import SqlMarshal.Proofs.Text.Utf8RoundTrip
import SqlMarshal.Query.Names

/-! # Segments lose nothing

The segments of some pieces put together again are the text of the pieces: a named parameter takes in
just the colon and the word of bare characters behind it. For a text that falls into pieces they are
also the pieces themselves, since a region is never mistaken for a single character.
-/

namespace SqlMarshal

@[simp] theorem piecesText_nil : piecesText [] = [] := rfl

@[simp] theorem piecesText_cons (piece : Piece) (rest : List Piece) :
    piecesText (piece :: rest) = piece.text ++ piecesText rest := rfl

@[simp] theorem piecesText_append (left right : List Piece) :
    piecesText (left ++ right) = piecesText left ++ piecesText right := by
  simp [piecesText]

@[simp] theorem piecesText_bare (text : List Char) : piecesText (text.map Piece.bare) = text := by
  induction text with
  | nil => rfl
  | cons c rest ih => simp [Piece.text, ih]

theorem leadingWord_split (found : List Piece) :
    (leadingWord found).map Piece.bare ++ found.drop (leadingWord found).length = found := by
  fun_induction leadingWord found with
  | case1 c rest isWord ih => simpa [isWord] using ih
  | case2 => simp
  | case3 => simp

theorem leadingWord_isWord (found : List Piece) : ∀ c ∈ leadingWord found, isWordChar c := by
  fun_induction leadingWord found with
  | case1 c rest isWord ih => exact List.forall_mem_cons.2 ⟨isWord, ih⟩
  | case2 => simp
  | case3 => simp

theorem segments_text (found : List Piece) :
    (segments found).flatMap Segment.text = piecesText found := by
  fun_induction segments found with
  | case1 => rfl
  | case2 rest ih => simp [ih, Piece.text, Segment.text]
  | case3 rest _ none ih => simp [ih, Piece.text, Segment.text]
  | case4 rest _ c word named ih =>
      have split := congrArg piecesText (leadingWord_split rest)
      rw [named, List.length_cons, piecesText_append, piecesText_bare] at split
      simpa [ih, Piece.text, Segment.text] using split
  | case5 piece rest _ _ ih => simp [ih, Segment.text]

/-- Spans lie one behind the other, and inside the text. -/
theorem parametersFrom_ordered (offset : Nat) (segs : List Segment) :
    (parametersFrom offset segs).Pairwise (fun left right => left.stop ≤ right.start) ∧
      ∀ token ∈ parametersFrom offset segs, offset ≤ token.start ∧ token.start < token.stop ∧
        token.stop ≤ offset + Utf8.size (segs.flatMap Segment.text) := by
  induction segs generalizing offset with
  | nil => simp [parametersFrom]
  | cons segment rest ih =>
      cases segment with
      | copy text =>
          obtain ⟨ordered, inside⟩ := ih (offset + Utf8.size text)
          refine ⟨ordered, fun token member => ?_⟩
          have bounds := inside token member
          simp only [List.flatMap_cons, Segment.text, Utf8.size_append]
          omega
      | parameter name =>
          obtain ⟨ordered, inside⟩ := ih (offset + Utf8.size (':' :: name))
          have colon : 0 < Utf8.size (':' :: name) :=
            Nat.add_pos_left (Char.utf8Size_pos ':') _
          constructor
          · exact .cons (fun token member => (inside token member).1) ordered
          · intro token member
            simp only [List.flatMap_cons, Segment.text, Utf8.size_append]
            rcases List.mem_cons.1 member with rfl | later
            · simp only
              omega
            · have bounds := inside token later
              omega

/-! ## The pieces of segments -/

/-- The pieces of a segment. -/
def Segment.pieces : Segment → List Piece
  | .copy [c] => [.bare c]
  | .copy text => if text = [':', ':'] then text.map .bare else [.region text]
  | .parameter name => (':' :: name).map .bare

/-- Copied text is there, and only a single character of it can belong to a word; a name is a word. -/
def Segment.Solid : Segment → Prop
  | .copy text => text ≠ [] ∧ ∀ c d rest, text = c :: d :: rest → isWordChar c = false
  | .parameter name => ∀ c ∈ name, isWordChar c

theorem Segment.pieces_copy_cases (text : List Char) :
    text = [':', ':'] ∧ (copy text).pieces = text.map Piece.bare ∨
      (∃ c, text = [c] ∧ (copy text).pieces = [.bare c]) ∨ (copy text).pieces = [.region text] := by
  rcases text with _ | ⟨c, _ | ⟨d, rest⟩⟩
  · exact .inr (.inr rfl)
  · exact .inr (.inl ⟨c, rfl, rfl⟩)
  · by_cases cast : c :: d :: rest = [':', ':']
    · exact .inl ⟨cast, if_pos cast⟩
    · exact .inr (.inr (if_neg cast))

@[simp] theorem Segment.piecesText_pieces (segment : Segment) :
    piecesText segment.pieces = segment.text := by
  cases segment with
  | parameter name => exact piecesText_bare (':' :: name)
  | copy text =>
      rcases pieces_copy_cases text with ⟨-, pieces⟩ | ⟨c, rfl, pieces⟩ | pieces <;>
        simp [pieces, Segment.text, Piece.text]

theorem piecesText_flatMap_pieces (segs : List Segment) :
    piecesText (segs.flatMap Segment.pieces) = segs.flatMap Segment.text := by
  induction segs with
  | nil => rfl
  | cons segment rest ih => simp [ih]

theorem Splits.behind_segment {segment : Segment} {text : List Char} {found : List Piece}
    (splits : Splits (segment.text ++ text) (segment.pieces ++ found)) : Splits text found := by
  obtain ⟨rest, same, behind⟩ := splits.append_inv
  rw [Segment.piecesText_pieces] at same
  obtain rfl := List.append_cancel_left same
  exact behind

theorem Splits.bare_append {text new : List Char} {found : List Piece} (splits : Splits text found)
    (ordinary : ∀ c ∈ new, c ∉ Region.openers) :
    Splits (new ++ text) (new.map Piece.bare ++ found) := by
  induction new with
  | nil => exact splits
  | cons c rest ih =>
      obtain ⟨here, later⟩ := List.forall_mem_cons.1 ordinary
      exact .bare (Region.cut?_of_plain (Region.plain_of_noOpener _ here)) (ih later)

theorem Splits.ends_of_mem {text inside : List Char} {found : List Piece}
    (splits : Splits text found) (member : .region inside ∈ found) :
    ∃ behind, Region.Ends inside behind := by
  induction splits with
  | done => simp at member
  | bare _ _ ih => exact ih (by simpa using member)
  | @region inside' rest others opens _ ih =>
      rcases List.mem_cons.1 member with same | later
      · obtain rfl := Piece.region.inj same
        exact ⟨rest, Region.ends_of_cut? opens⟩
      · exact ih later

/-- Every region of the pieces begins like one and has two characters at least. -/
def RegionsOpen (found : List Piece) : Prop :=
  ∀ inside, .region inside ∈ found → ∃ c d rest, inside = c :: d :: rest ∧ c ∈ Region.openers

theorem Splits.regionsOpen {text : List Char} {found : List Piece} (splits : Splits text found) :
    RegionsOpen found := by
  intro inside member
  obtain ⟨behind, ends⟩ := splits.ends_of_mem member
  exact ends.two_characters

theorem RegionsOpen.of_sublist {found part : List Piece} (opens : RegionsOpen found)
    (part_of : ∀ piece ∈ part, piece ∈ found) : RegionsOpen part :=
  fun inside member => opens inside (part_of _ member)

theorem pieces_copy (piece : Piece) (opens : RegionsOpen [piece]) :
    (Segment.copy piece.text).pieces = [piece] := by
  cases piece with
  | bare c => simp [Piece.text, Segment.pieces]
  | region inside =>
      obtain ⟨c, d, rest, rfl, opener⟩ := opens inside (by simp)
      have noColon : c ≠ ':' := by
        rintro rfl
        simp at opener
      simp [Piece.text, Segment.pieces, noColon]

theorem solid_copy (piece : Piece) (opens : RegionsOpen [piece]) :
    (Segment.copy piece.text).Solid := by
  cases piece with
  | bare c => simp [Piece.text, Segment.Solid]
  | region inside =>
      obtain ⟨c, d, rest, rfl, opener⟩ := opens inside (by simp)
      refine ⟨by simp [Piece.text], fun c' d' rest' same => ?_⟩
      obtain ⟨rfl, -⟩ := List.cons.inj same
      exact Region.isWordChar_opener opener

theorem segments_pieces {found : List Piece} (opens : RegionsOpen found) :
    (segments found).flatMap Segment.pieces = found := by
  fun_induction segments found with
  | case1 => rfl
  | case2 rest ih =>
      have later := ih (opens.of_sublist (by simp_all))
      simp [later, Segment.pieces]
  | case3 rest _ none ih =>
      have later := ih (opens.of_sublist (by simp_all))
      simp [later, Segment.pieces]
  | case4 rest _ c word named ih =>
      have later := ih (opens.of_sublist fun piece member =>
        List.mem_cons_of_mem _ (List.mem_of_mem_drop member))
      have split := leadingWord_split rest
      rw [named, List.length_cons] at split
      simpa [later, Segment.pieces] using split
  | case5 piece rest _ _ ih =>
      have here := pieces_copy piece (opens.of_sublist (by simp))
      have later := ih (opens.of_sublist (by simp_all))
      simp [here, later]

theorem segments_solid {found : List Piece} (opens : RegionsOpen found) :
    ∀ segment ∈ segments found, segment.Solid := by
  fun_induction segments found with
  | case1 => simp
  | case2 rest ih =>
      have later := ih (opens.of_sublist (by simp_all))
      have colons : (Segment.copy [':', ':']).Solid := by
        refine ⟨by simp, fun c d rest same => ?_⟩
        obtain ⟨rfl, -⟩ := List.cons.inj same
        decide
      exact List.forall_mem_cons.2 ⟨colons, later⟩
  | case3 rest _ none ih =>
      have later := ih (opens.of_sublist (by simp_all))
      exact List.forall_mem_cons.2 ⟨by simp [Segment.Solid], later⟩
  | case4 rest _ c word named ih =>
      have later := ih (opens.of_sublist fun piece member =>
        List.mem_cons_of_mem _ (List.mem_of_mem_drop member))
      exact List.forall_mem_cons.2 ⟨named ▸ leadingWord_isWord rest, later⟩
  | case5 piece rest _ _ ih =>
      have here := solid_copy piece (opens.of_sublist (by simp))
      have later := ih (opens.of_sublist (by simp_all))
      exact List.forall_mem_cons.2 ⟨here, later⟩

end SqlMarshal
