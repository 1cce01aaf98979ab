import SqlMarshal.Proofs.Bind.Spans
import SqlMarshal.Proofs.Query.Locality

/-! # New text in place of parameters

Placeholders and `NULL` are put in place of the parameters of a query. That leaves all regions of the
query what and where they were and opens none, with one exception: behind a dollar and word characters
`NULL` can become part of a marker, and then a dollar-quoted text may open that the query did not have.
-/

namespace SqlMarshal

/-! ## Text that can stand in -/

/-- Text that is put in place of parameters: `NULL`, or placeholders and commas. -/
def IsStandIn (new : List Char) : Prop :=
  new = "NULL".toList ∨ new.head? = some '?' ∧ ∀ c ∈ new, c = '?' ∨ c = ','

theorem IsStandIn.noOpener {new : List Char} (standIn : IsStandIn new) :
    ∀ c ∈ new, c ∉ Region.openers := by
  intro c member
  rcases standIn with rfl | ⟨-, chars⟩
  · change c ∈ ['N', 'U', 'L', 'L'] at member
    simp only [List.mem_cons, List.not_mem_nil, or_false] at member
    rcases member with rfl | rfl | rfl | rfl <;> decide
  · rcases chars c member with rfl | rfl <;> decide

theorem IsStandIn.head? {new : List Char} (standIn : IsStandIn new) :
    new.head? = some '?' ∨ new.head? = some 'N' := by
  rcases standIn with rfl | ⟨first, -⟩
  · exact .inr rfl
  · exact .inl first

theorem isStandIn_placeholders {items : List Param} (some : items ≠ []) :
    IsStandIn (Expansion.placeholders items) := by
  refine .inr ?_
  fun_induction Expansion.placeholders items with
  | case1 => contradiction
  | case2 => exact ⟨rfl, by simp⟩
  | case3 _ rest more ih =>
      obtain ⟨-, chars⟩ := ih (fun none => by simp [none] at more)
      refine ⟨rfl, fun c member => ?_⟩
      rcases List.mem_cons.1 member with rfl | member
      · exact .inl rfl
      · rcases List.mem_cons.1 member with rfl | member
        · exact .inr rfl
        · exact chars c member

theorem Param.isStandIn_standIn (param : Param) : IsStandIn param.standIn := by
  unfold standIn
  split
  · exact .inr ⟨rfl, by simp⟩
  · exact .inl rfl
  · rename_i items some _
    rw [← Expansion.placeholders_eq]
    exact isStandIn_placeholders some

/-! ## The pieces with new text -/

/-- Behind no bare dollar does new text make a marker of a dollar-quoted text. -/
def NoNewMarker : List Segment → List (List Char) → Prop
  | [], _ => True
  | .copy text :: rest, texts =>
      (text = ['$'] → Region.dollarMarker? (piecesText (replacePieces rest texts)) = none) ∧
        NoNewMarker rest texts
  | .parameter _ :: rest, texts => NoNewMarker rest texts.tail

theorem replacePieces_nil (segs : List Segment) :
    replacePieces segs [] = segs.flatMap Segment.pieces := by
  induction segs with
  | nil => rfl
  | cons segment rest ih => cases segment <;> simp [replacePieces, ih]

section Replace

variable {segs : List Segment} {texts : List (List Char)}

theorem standsFor_replacePieces (solid : ∀ segment ∈ segs, segment.Solid)
    (standIns : ∀ new ∈ texts, IsStandIn new) :
    Region.StandsFor (piecesText (replacePieces segs texts)) (segs.flatMap Segment.text) := by
  cases segs with
  | nil => exact ⟨fun _ => rfl, by simp [replacePieces, piecesText]⟩
  | cons segment rest =>
      cases segment with
      | copy text =>
          obtain ⟨c, tail, rfl⟩ := List.exists_cons_of_ne_nil (List.forall_mem_cons.1 solid).1.1
          refine ⟨by simp [Segment.text], fun d first => .inl ?_⟩
          simpa [replacePieces, Segment.text] using first
      | parameter name =>
          cases texts with
          | nil =>
              refine ⟨by simp [Segment.text], fun d first => .inl ?_⟩
              simpa [replacePieces, Segment.text] using first
          | cons new others =>
              refine ⟨by simp [Segment.text], fun d first => .inr ?_⟩
              have head := (List.forall_mem_cons.1 standIns).1.head?
              cases new with
              | nil => simp at head
              | cons e tail =>
                  obtain rfl : e = d := by simpa [replacePieces, Piece.text] using first
                  rcases head with same | same <;> obtain rfl := Option.some.inj same <;> decide

theorem splits_replacePieces (solid : ∀ segment ∈ segs, segment.Solid)
    (standIns : ∀ new ∈ texts, IsStandIn new) (noMarker : NoNewMarker segs texts)
    (splits : Splits (segs.flatMap Segment.text) (segs.flatMap Segment.pieces)) :
    Splits (piecesText (replacePieces segs texts)) (replacePieces segs texts) := by
  induction segs generalizing texts with
  | nil => exact .done
  | cons segment rest ih =>
      obtain ⟨-, later⟩ := List.forall_mem_cons.1 solid
      rw [List.flatMap_cons, List.flatMap_cons] at splits
      have behind := splits.behind_segment
      cases segment with
      | copy text =>
          have stands := standsFor_replacePieces later standIns
          have others := ih later standIns noMarker.2 behind
          simp only [replacePieces, piecesText_append, Segment.piecesText_pieces, Segment.text]
            at splits ⊢
          rcases Segment.pieces_copy_cases text with ⟨rfl, pieces⟩ | ⟨c, rfl, pieces⟩ | pieces <;>
            rw [pieces] at splits ⊢
          · refine others.bare_append fun c member => ?_
            obtain rfl : c = ':' := by simpa using member
            decide
          · obtain ⟨_, same, none, -⟩ := splits.bare_inv
            obtain rfl := (List.cons.inj same).2
            have plain := Region.plain_of_cut? none
            refine .bare (Region.cut?_of_plain (plain.behind stands ?_)) others
            rintro rfl
            exact noMarker.1 rfl
          · obtain ⟨_, same, opens, -⟩ := splits.region_inv
            obtain rfl := List.append_cancel_left same
            exact .region (Region.cut?_of_ends ((Region.ends_of_cut? opens).behind stands)) others
      | parameter name =>
          cases texts with
          | nil =>
              rw [replacePieces_nil, piecesText_flatMap_pieces]
              exact splits
          | cons new others =>
              obtain ⟨standIn, standIns⟩ := List.forall_mem_cons.1 standIns
              simp only [replacePieces, piecesText_append, piecesText_bare]
              exact (ih later standIns noMarker behind).bare_append standIn.noOpener

end Replace

/-- An accepted query is accepted again with new text in place of its parameters. -/
theorem Splits.replaced {text : List Char} {pieces : List Piece} {found : List Param}
    (splits : Splits text pieces)
    (noMarker : NoNewMarker (segments pieces) (found.map Param.standIn)) :
    let written := replacePieces (segments pieces) (found.map Param.standIn)
    Splits (piecesText written) written := by
  have solid := segments_solid splits.regionsOpen
  have whole := segments_pieces splits.regionsOpen
  have standIns : ∀ new ∈ found.map Param.standIn, IsStandIn new := by
    intro new member
    obtain ⟨value, -, rfl⟩ := List.mem_map.1 member
    exact value.isStandIn_standIn
  refine splits_replacePieces solid standIns noMarker ?_
  rw [← piecesText_flatMap_pieces, whole, splits.text]
  exact splits

end SqlMarshal
