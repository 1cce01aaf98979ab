import SqlMarshal.Proofs.Bind.Substitution

/-! # Where the markers of a bound query come from

The text that is written for a dialect has two kinds of bare question marks: those that were put in
place of parameters, and those the query had before. The former come in the order of the arguments,
one for each. The latter are numbered along with them and have no argument, so it is only in a query
without question marks of its own that every marker has its argument.
-/

namespace SqlMarshal

/-- The places of the bare question marks among pieces that begin at an offset. -/
def bareMarks : (offset : Nat) → List Piece → List Nat
  | _, [] => []
  | offset, piece :: rest =>
      let others := bareMarks (offset + Utf8.size piece.text) rest
      if piece = .bare '?' then offset :: others else others

/-- A bare question mark of a text that is written for a dialect. -/
structure Mark where
  position : Nat
  /-- The parameter and the argument that it was put there for, unless it is the query's own. -/
  origin : Option (NamedParameter × Param)

/-- The marks that are put in place of a parameter for its arguments. -/
def emitted (token : NamedParameter) : (offset : Nat) → List Param → List Mark
  | _, [] => []
  | offset, argument :: rest => ⟨offset, some (token, argument)⟩ :: emitted token (offset + 2) rest

/-- The marks of segments in which parameters are replaced for their values. The segments begin at
    `start` in the query and at `offset` in the text that becomes of it. -/
def marksFrom : (start offset : Nat) → List Segment → List Param → List Mark
  | start, offset, .copy text :: rest, found =>
      let others := marksFrom (start + Utf8.size text) (offset + Utf8.size text) rest found
      if text = ['?'] then ⟨offset, none⟩ :: others else others
  | start, offset, .parameter name :: rest, param :: found =>
      let stop := start + Utf8.size (':' :: name)
      emitted ⟨String.ofList name, start, stop⟩ offset param.contributed ++
        marksFrom stop (offset + Utf8.size param.standIn) rest found
  | _, _, _, _ => []

/-- The arguments of parameters in order, each with the parameter that contributes it. -/
def contributions (tokens : List NamedParameter) (found : List Param) :
    List (NamedParameter × Param) :=
  (tokens.zip found).flatMap fun (token, param) => param.contributed.map (token, ·)

/-! ## Places -/

theorem bareMarks_append (offset : Nat) (left right : List Piece) :
    bareMarks offset (left ++ right) =
      bareMarks offset left ++ bareMarks (offset + Utf8.size (piecesText left)) right := by
  induction left generalizing offset with
  | nil => simp [bareMarks, piecesText, Utf8.size]
  | cons piece rest ih =>
      simp only [List.cons_append, bareMarks, ih, piecesText_cons, Utf8.size_append,
        Nat.add_assoc]
      split <;> rfl

theorem bareMarks_copy (offset : Nat) (text : List Char) :
    bareMarks offset (Segment.copy text).pieces = if text = ['?'] then [offset] else [] := by
  rcases Segment.pieces_copy_cases text with ⟨rfl, pieces⟩ | ⟨c, rfl, pieces⟩ | pieces
  · rfl
  · rw [pieces]
    simp [bareMarks]
  · by_cases own : text = ['?']
    · subst own
      simp [Segment.pieces] at pieces
    · rw [pieces, if_neg own]
      simp [bareMarks]

theorem bareMarks_placeholders (token : NamedParameter) (offset : Nat) (items : List Param) :
    bareMarks offset ((Expansion.placeholders items).map Piece.bare) =
      (emitted token offset items).map (·.position) := by
  fun_induction Expansion.placeholders items generalizing offset with
  | case1 => rfl
  | case2 => rfl
  | case3 item rest more ih =>
      have comma : Utf8.size [','] = 1 := by decide
      have mark : Utf8.size ['?'] = 1 := by decide
      simp [bareMarks, emitted, Piece.text, comma, mark, ih, Nat.add_assoc]

theorem bareMarks_standIn (token : NamedParameter) (offset : Nat) (param : Param) :
    bareMarks offset (param.standIn.map Piece.bare) =
      (emitted token offset param.contributed).map (·.position) := by
  unfold Param.standIn Param.contributed
  rcases param.elements? with _ | _ | ⟨item, items⟩
  · rfl
  · rfl
  · simp only [← Expansion.placeholders_eq]
    exact bareMarks_placeholders token offset (item :: items)

theorem bareMarks_replacePieces {segs : List Segment} {found : List Param} (start offset : Nat)
    (enough : (parametersFrom start segs).length = found.length) :
    bareMarks offset (replacePieces segs (found.map Param.standIn)) =
      (marksFrom start offset segs found).map (·.position) := by
  induction segs generalizing start offset found with
  | nil => rfl
  | cons segment rest ih =>
      cases segment with
      | copy text =>
          simp only [replacePieces, bareMarks_append, bareMarks_copy, Segment.piecesText_pieces,
            Segment.text, marksFrom, ih (start + Utf8.size text) (offset + Utf8.size text) enough]
          split <;> rfl
      | parameter name =>
          cases found with
          | nil => simp [parametersFrom] at enough
          | cons param others =>
              simp only [parametersFrom, List.length_cons, Nat.add_right_cancel_iff] at enough
              simp only [List.map_cons, replacePieces, bareMarks_append, piecesText_bare,
                bareMarks_standIn ⟨String.ofList name, start, start + Utf8.size (':' :: name)⟩,
                marksFrom, List.map_append, ih _ _ enough]

/-! ## Origins -/

theorem emitted_origin (token : NamedParameter) (offset : Nat) (items : List Param) :
    (emitted token offset items).filterMap (·.origin) = items.map (token, ·) := by
  induction items generalizing offset with
  | nil => rfl
  | cons item rest ih => simp [emitted, ih]

theorem marksFrom_origin {segs : List Segment} {found : List Param} (start offset : Nat)
    (enough : (parametersFrom start segs).length = found.length) :
    (marksFrom start offset segs found).filterMap (·.origin) =
      contributions (parametersFrom start segs) found := by
  induction segs generalizing start offset found with
  | nil => rfl
  | cons segment rest ih =>
      cases segment with
      | copy text =>
          simp only [marksFrom, parametersFrom]
          rw [← ih (start + Utf8.size text) (offset + Utf8.size text) enough]
          split <;> rfl
      | parameter name =>
          cases found with
          | nil => simp [parametersFrom] at enough
          | cons param others =>
              simp only [parametersFrom, List.length_cons, Nat.add_right_cancel_iff] at enough
              simp only [marksFrom, parametersFrom, List.filterMap_append, ih _ _ enough,
                emitted_origin]
              rfl

theorem contributions_arguments {tokens : List NamedParameter} {found : List Param}
    (enough : tokens.length = found.length) :
    (contributions tokens found).map (·.2) = found.flatMap Param.contributed := by
  induction tokens generalizing found with
  | nil =>
      obtain rfl := List.length_eq_zero_iff.1 enough.symm
      rfl
  | cons token rest ih =>
      cases found with
      | nil => simp at enough
      | cons param others =>
          have later := ih (Nat.succ.inj enough)
          simp only [contributions] at later
          simp [contributions, later, Function.comp_def]

/-! ## Numbers -/

theorem length_bareMarks (offset : Nat) (found : List Piece) :
    (bareMarks offset found).length = found.count (.bare '?') := by
  induction found generalizing offset with
  | nil => rfl
  | cons piece rest ih =>
      simp only [bareMarks, List.count_cons, beq_iff_eq]
      split <;> simp [ih]

theorem length_emitted (token : NamedParameter) (offset : Nat) (items : List Param) :
    (emitted token offset items).length = items.length := by
  induction items generalizing offset with
  | nil => rfl
  | cons item rest ih => simp [emitted, ih]

theorem count_standIn (param : Param) :
    (param.standIn.map Piece.bare).count (.bare '?') = param.contributed.length := by
  rw [← length_bareMarks 0, bareMarks_standIn ⟨"", 0, 0⟩, List.length_map, length_emitted]

theorem count_name {name : List Char} (isWord : ∀ c ∈ name, isWordChar c) :
    (Segment.parameter name).pieces.count (.bare '?') = 0 := by
  have noMark : Piece.bare '?' ∉ (Segment.parameter name).pieces := by
    intro member
    simp only [Segment.pieces, List.mem_map, Piece.bare.injEq, exists_eq_right] at member
    rcases List.mem_cons.1 member with same | inName
    · simp at same
    · exact absurd (isWord _ inName) (by decide)
  exact List.count_eq_zero.2 noMark

theorem count_replacePieces {segs : List Segment} {found : List Param} {start : Nat}
    (solid : ∀ segment ∈ segs, segment.Solid)
    (enough : (parametersFrom start segs).length = found.length) :
    (replacePieces segs (found.map Param.standIn)).count (.bare '?') =
      (found.flatMap Param.contributed).length +
        (segs.flatMap Segment.pieces).count (.bare '?') := by
  induction segs generalizing start found with
  | nil =>
      obtain rfl := List.length_eq_zero_iff.1 enough.symm
      rfl
  | cons segment rest ih =>
      obtain ⟨here, later⟩ := List.forall_mem_cons.1 solid
      cases segment with
      | copy text =>
          simp only [replacePieces, List.count_append, List.flatMap_cons, ih later enough]
          omega
      | parameter name =>
          cases found with
          | nil => simp [parametersFrom] at enough
          | cons param others =>
              simp only [parametersFrom, List.length_cons, Nat.add_right_cancel_iff] at enough
              simp only [List.map_cons, replacePieces, List.count_append, count_standIn,
                List.flatMap_cons, List.length_append, ih later enough, count_name here]
              omega

theorem origins_of_length {marks : List Mark}
    (all : (marks.filterMap (·.origin)).length = marks.length) :
    marks.map (·.origin) = (marks.filterMap (·.origin)).map some := by
  induction marks with
  | nil => rfl
  | cons mark rest ih =>
      cases origin : mark.origin with
      | none =>
          have short := List.length_filterMap_le (·.origin) rest
          simp only [List.filterMap_cons, origin, List.length_cons] at all
          omega
      | some pair =>
          have later := ih (by simpa [List.filterMap_cons, origin] using all)
          simp [origin, later]

/-! ## Binding -/

namespace Statement

variable {Γ : Catalogue} {query : String} {dialect : Dialect} {param : Param}

/-- Binding by name writes markers for the arguments, in their order, and for the question marks that
    the query has of its own. The first are as many as the arguments, and without the others every
    marker belongs to the argument of its number. -/
theorem bound_marks {pieces : List Piece} {arguments : Arguments} {found : List Param}
    (bindable : param.isBindable Γ) (split : piecesOf query.toList = .ok pieces)
    (named : parametersFrom 0 (segments pieces) ≠ [])
    (built : Arguments.build Γ param = .ok arguments)
    (known : (parametersFrom 0 (segments pieces)).map (fun token => arguments.get? token.name) =
      found.map some)
    (noMarker : NoNewMarker (segments pieces) (found.map Param.standIn)) :
    let origins := contributions (parametersFrom 0 (segments pieces)) found
    let marks := marksFrom 0 0 (segments pieces) found
    ∃ text written,
      expandSegments arguments (segments pieces) = .ok ⟨text, origins.map (·.2)⟩ ∧
      piecesOf text = .ok written ∧
      bind Γ query dialect [param] =
        .ok ⟨String.ofList (writeMarkers dialect 1 written), origins.map (·.2)⟩ ∧
      bareMarks 0 written = marks.map (·.position) ∧
      marks.filterMap (·.origin) = origins ∧
      (bareMarks 0 written).length = origins.length + pieces.count (.bare '?') ∧
      (.bare '?' ∉ pieces → marks.map (·.origin) = origins.map some) := by
  intro origins marks
  have splits := piecesOf_iff.1 split
  have solid := segments_solid splits.regionsOpen
  have whole := segments_pieces splits.regionsOpen
  have enough : (parametersFrom 0 (segments pieces)).length = found.length := by
    simpa using congrArg List.length known
  have expanded := expandSegments_known known
  rw [← contributions_arguments enough] at expanded
  let written := replacePieces (segments pieces) (found.map Param.standIn)
  have standIns : ∀ new ∈ found.map Param.standIn, IsStandIn new := by
    intro new member
    obtain ⟨value, -, rfl⟩ := List.mem_map.1 member
    exact value.isStandIn_standIn
  have splitAgain : piecesOf (piecesText written) = .ok written := by
    refine piecesOf_iff.2 (splits_replacePieces solid standIns noMarker ?_)
    rw [← piecesText_flatMap_pieces, whole, splits.text]
    exact splits
  have positions : bareMarks 0 written = marks.map (·.position) :=
    bareMarks_replacePieces 0 0 enough
  have belongs : marks.filterMap (·.origin) = origins := marksFrom_origin 0 0 enough
  have number : (bareMarks 0 written).length = origins.length + pieces.count (.bare '?') := by
    rw [length_bareMarks, count_replacePieces solid enough, whole,
      ← contributions_arguments enough, List.length_map]
  refine ⟨piecesText written, written, expanded, splitAgain, ?_, positions, belongs, number, ?_⟩
  · rw [bind_of_isBindable bindable, bindNamed_of_segments split named, built]
    simp only [Except.bind, expanded, markText]
    change ((piecesOf (piecesText written)).map _).map _ = _
    rw [splitAgain]
    rfl
  · intro noOwn
    rw [List.count_eq_zero.2 noOwn, positions, List.length_map] at number
    rw [origins_of_length (by rw [belongs, number]; rfl), belongs]

theorem bound_marks_of_list :
    let ids : Param := .array (.int .w64) [.whole 1, .whole 2]
    let param : Param := .map .ordered [("ids", ids)]
    let token : NamedParameter := ⟨"ids", 6, 10⟩
    ∃ written,
      bind {} "? IN (:ids)" .dollar [param] =
        .ok ⟨String.ofList (writeMarkers .dollar 1 written),
          [.datum (.int .w64) (.whole 1), .datum (.int .w64) (.whole 2)]⟩ ∧
      bareMarks 0 written =
        ([⟨0, none⟩, ⟨6, some (token, .datum (.int .w64) (.whole 1))⟩,
          ⟨8, some (token, .datum (.int .w64) (.whole 2))⟩] : List Mark).map (·.position) := by
  intro ids param token
  have bindable : param.isBindable {} := by decide
  have split : piecesOf "? IN (:ids)".toList = .ok ("? IN (:ids)".toList.map Piece.bare) := by cbv
  have segs : segments ("? IN (:ids)".toList.map Piece.bare) =
      [.copy ['?'], .copy [' '], .copy ['I'], .copy ['N'], .copy [' '], .copy ['('],
        .parameter ['i', 'd', 's'], .copy [')']] := by cbv
  have built : Arguments.build {} param = .ok ⟨[("ids", ids)]⟩ := by cbv
  have known : (parametersFrom 0 (segments ("? IN (:ids)".toList.map Piece.bare))).map
      (fun token => (Arguments.mk [("ids", ids)]).get? token.name) = [ids].map some := by
    rw [segs]
    cbv
  obtain ⟨text, written, -, -, bound, positions, -⟩ :=
    @bound_marks {} "? IN (:ids)" .dollar param _ _ _ bindable split (by rw [segs]; decide) built
      known (by rw [segs]; simp [NoNewMarker])
  refine ⟨written, bound.trans ?_, positions.trans ?_⟩
  · rw [segs]
    rfl
  · rw [segs]
    rfl

/-- A query with a question mark of its own gives that mark the first number and the only argument
    none, and a `NULL` behind a dollar can hide the mark of another parameter. -/
theorem marks_without_arguments :
    let x : Param := .datum (.int .w64) (.whole 1)
    let none : Param := .array .text []
    let param : Param := .map .ordered [("x", x), ("none", none)]
    let expand (query : String) : Except QueryError Expansion := do
      expandSegments (← Arguments.build {} param) (segments (← piecesOf query.toList))
    (param.isBindable {} ∧ namedParameters "? :x" = .ok [⟨"x", 2, 4⟩] ∧
      expand "? :x" = .ok ⟨"? ?".toList, [x]⟩ ∧
      (piecesOf "? ?".toList).map (bareMarks 0) = .ok [0, 2] ∧
      bind {} "? :x" .dollar [param] = .ok ⟨"$1 $2", [x]⟩) ∧
    expand "$:none$ :x -- $NULL$" = .ok ⟨"$NULL$ ? -- $NULL$".toList, [x]⟩ ∧
      (piecesOf "$NULL$ ? -- $NULL$".toList).map (bareMarks 0) = .ok [] ∧
      bind {} "$:none$ :x -- $NULL$" .dollar [param] = .ok ⟨"$NULL$ ? -- $NULL$", [x]⟩ := by
  intro x none param expand
  have bindable : param.isBindable {} := by decide
  have own : expand "? :x" = .ok ⟨"? ?".toList, [x]⟩ := by
    simp only [expand]
    cbv
  have hidden : expand "$:none$ :x -- $NULL$" = .ok ⟨"$NULL$ ? -- $NULL$".toList, [x]⟩ := by
    simp only [expand]
    cbv
  exact ⟨⟨bindable, by cbv, own, by cbv, by cbv⟩, hidden, by cbv, by cbv⟩

end Statement

end SqlMarshal
