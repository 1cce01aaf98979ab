import SqlMarshal.Proofs.Bind.RefusedQueries

/-! # The same statement for another dialect

The dialect has a say in nothing but the markers. Whether a query is refused, and with which error, is
settled by its text and its parameters, and so are the arguments. A query that is bound for question
marks is the text that any dialect starts from, placeholders included, so it can be kept and written
for another dialect later.
-/

namespace SqlMarshal

variable {Γ : Catalogue} {query : String} {dialect : Dialect}

/-- The parameter is bound by name, and the query does not name anything. -/
def NamesNothing (Γ : Catalogue) (query : String) (params : List Param) : Prop :=
  ∃ param, params = [param] ∧ param.isBindable Γ ∧ namedParameters query = .ok []

/-- What one gets for a dialect is what one gets with question marks, written for the dialect. -/
def WrittenFrom (dialect : Dialect) (asked got : Except QueryError Statement) : Prop :=
  match asked with
  | .error error => got = .error error
  | .ok statement =>
      ∃ text, markPlaceholders statement.query dialect = .ok text ∧
        got = .ok ⟨text, statement.arguments⟩

theorem writtenFrom_markText (text : List Char) (arguments : List Param) :
    WrittenFrom dialect ((markText .question text).map fun text => ⟨String.ofList text, arguments⟩)
      ((markText dialect text).map fun text => ⟨String.ofList text, arguments⟩) := by
  unfold markText
  cases split : piecesOf text with
  | error error => rfl
  | ok found =>
      have unchanged : writeMarkers .question 1 found = text := by
        rw [writeMarkers_eq, placeMarkers_question, (piecesOf_iff.1 split).text]
      refine ⟨String.ofList (writeMarkers dialect 1 found), ?_, rfl⟩
      simp only [unchanged, markPlaceholders, markText, String.toList_ofList, split]
      rfl

namespace Statement

variable {param : Param} {params : List Param}

theorem bindInOrder_writtenFrom :
    WrittenFrom dialect (bindInOrder query .question params)
      (bindInOrder query dialect params) := by
  have both : ∀ dialect, bindInOrder query dialect params =
      (markText dialect query.toList).map fun text => ⟨String.ofList text, params⟩ := by
    intro dialect
    unfold bindInOrder markPlaceholders
    cases markText dialect query.toList <;> rfl
  rw [both, both]
  exact writtenFrom_markText query.toList params

/-- A query that names parameters becomes the same text for every dialect, and only then are its
    placeholders written. -/
theorem bindNamed_writtenFrom {found : List Piece} (split : piecesOf query.toList = .ok found)
    (named : parametersFrom 0 (segments found) ≠ []) :
    WrittenFrom dialect (bindNamed Γ query .question param) (bindNamed Γ query dialect param) := by
  rw [bindNamed_of_segments split named, bindNamed_of_segments split named]
  cases Arguments.build Γ param with
  | error error => rfl
  | ok arguments =>
      simp only [Except.bind]
      cases expandSegments arguments (segments found) with
      | error error => rfl
      | ok expansion => exact writtenFrom_markText expansion.text expansion.arguments

theorem bind_writtenFrom (some : ¬ NamesNothing Γ query params) :
    WrittenFrom dialect (bind Γ query .question params) (bind Γ query dialect params) := by
  cases split : piecesOf query.toList with
  | error error => simp only [bind_of_refused split, WrittenFrom]
  | ok found =>
      by_cases byName : ∃ param, params = [param] ∧ param.isBindable Γ
      · obtain ⟨param, rfl, bindable⟩ := byName
        rw [bind_of_isBindable bindable, bind_of_isBindable bindable]
        refine bindNamed_writtenFrom split fun unnamed => some ⟨param, rfl, bindable, ?_⟩
        simp only [namedParameters, split, Except.map, unnamed]
      · have inOrder : ∀ dialect,
            bind Γ query dialect params = bindInOrder query dialect params := by
          intro dialect
          unfold bind
          split
          · rename_i param
            exact if_neg fun bindable => byName ⟨param, rfl, bindable⟩
          · rfl
        rw [inOrder, inOrder]
        exact bindInOrder_writtenFrom

theorem bind_of_namesNothing (nothing : NamesNothing Γ query params) :
    bind Γ query dialect params = .ok ⟨query, []⟩ := by
  obtain ⟨param, rfl, bindable, unnamed⟩ := nothing
  unfold namedParameters at unnamed
  cases split : piecesOf query.toList with
  | error error => simp [split, Except.map] at unnamed
  | ok found =>
      rw [bind_of_isBindable bindable]
      exact bindNamed_of_no_parameter split (by simpa [split, Except.map] using unnamed)

/-- A query is refused for all dialects alike. If it is not, its arguments are the same for all of
    them, and its text for a dialect is the one with question marks, written for the dialect; but a
    query without names, bound by name, is left as it is. -/
theorem bind_for_dialects (Γ : Catalogue) (query : String) (dialect : Dialect)
    (params : List Param) :
    (∀ error, bind Γ query dialect params = .error error ↔
      bind Γ query .question params = .error error) ∧
    ∀ asked, bind Γ query .question params = .ok asked →
      ∃ written, bind Γ query dialect params = .ok written ∧
        written.arguments = asked.arguments ∧
        (NamesNothing Γ query params → asked.query = query ∧ written.query = query) ∧
        (¬ NamesNothing Γ query params →
          markPlaceholders asked.query dialect = .ok written.query) := by
  by_cases nothing : NamesNothing Γ query params
  · simp only [bind_of_namesNothing nothing, reduceCtorEq, implies_true, true_and]
    rintro _ ⟨rfl⟩
    exact ⟨_, rfl, rfl, fun _ => ⟨rfl, rfl⟩, fun some => absurd nothing some⟩
  · have same : WrittenFrom dialect (bind Γ query .question params) (bind Γ query dialect params) :=
      bind_writtenFrom nothing
    cases asked : bind Γ query .question params with
    | error error =>
        rw [asked] at same
        simp only [WrittenFrom] at same
        simp [same]
    | ok statement =>
        rw [asked] at same
        obtain ⟨text, written, got⟩ := same
        simp only [got, reduceCtorEq, implies_true, true_and]
        rintro _ ⟨rfl⟩
        exact ⟨_, rfl, rfl, fun absent => absurd absent nothing, fun _ => written⟩

/-- A question mark that the query had of its own is numbered with those of its parameters. -/
theorem bind_for_dollars :
    let x : Param := .datum (.int .w64) (.whole 9)
    let ids : Param := .array (.int .w64) [.whole 1, .whole 2]
    let params : List Param := [.map .ordered [("x", x), ("ids", ids)]]
    let query := "a=:x AND ? IN (:ids) -- :x?"
    let arguments : List Param := [x, .datum (.int .w64) (.whole 1), .datum (.int .w64) (.whole 2)]
    bind {} query .question params = .ok ⟨"a=? AND ? IN (?,?) -- :x?", arguments⟩ ∧
      ¬ NamesNothing {} query params ∧
      bind {} query .dollar params = .ok ⟨"a=$1 AND $2 IN ($3,$4) -- :x?", arguments⟩ := by
  intro x ids params query arguments
  have asked : bind {} query .question params =
      .ok ⟨"a=? AND ? IN (?,?) -- :x?", arguments⟩ := by cbv
  have tokens : namedParameters query = .ok [⟨"x", 2, 4⟩, ⟨"ids", 15, 19⟩] := by cbv
  have named : ¬ NamesNothing {} query params := by
    rintro ⟨param, -, -, unnamed⟩
    simp [tokens] at unnamed
  have marked : markPlaceholders "a=? AND ? IN (?,?) -- :x?" .dollar =
      .ok "a=$1 AND $2 IN ($3,$4) -- :x?" := by cbv
  obtain ⟨⟨text, _⟩, got, rfl, -, again⟩ :=
    (bind_for_dialects {} query .dollar params).2 _ asked
  obtain rfl := Except.ok.inj (marked.symm.trans (again named))
  exact ⟨asked, named, got⟩

end Statement

end SqlMarshal
