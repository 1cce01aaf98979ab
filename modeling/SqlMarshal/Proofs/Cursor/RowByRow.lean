import SqlMarshal.Cursor.Table
import SqlMarshal.Proofs.Cursor.CachedPlans
import SqlMarshal.Proofs.Cursor.CallOrder
import SqlMarshal.Proofs.Row.OnePass

/-! # Reading all rows is reading each row

A reader plans once, at the first row, and reads the others by that plan. When a cursor delivers rows
under the same labels throughout, this is to read every row for itself: a value depends on the plan
and on what is fed, so nothing of one row comes into another.
-/

namespace SqlMarshal

variable {σ : Type}

/-- The cursor goes over rows and comes to their end. For each of them it tells the same labels, which
    leaves it where it is, and feeds the row. -/
inductive Cursor.Delivers (cursor : Cursor σ) (labels : List String) :
    List (List Value) → σ → σ → Prop where
  | done {state last : σ} : cursor.next state = (false, last) →
      cursor.Delivers labels [] state last
  | row {state here after last : σ} {row : List Value} {rows : List (List Value)} :
      cursor.next state = (true, here) → cursor.columns here = (.ok labels, here) →
        (∀ width, cursor.scan here width = .ofValues after width row) →
          cursor.Delivers labels rows after last → cursor.Delivers labels (row :: rows) state last

/-- The error with which a cursor leaves the rows behind: its own, or else that of closing it. -/
def Cursor.lastError (cursor : Cursor σ) (last : σ) : Option RowError :=
  match cursor.error last with
  | (some error, _) => some error
  | (none, last) => (cursor.close last).1

/-- The values of rows, unless the cursor leaves them behind with an error. -/
def Cursor.orLastError (cursor : Cursor σ) (last : σ) (values : Except RowError (List Datum)) :
    Except RowError (List Datum) :=
  values.bind fun values =>
    match cursor.lastError last with
    | some error => .error error
    | none => .ok values

/-- The values of rows behind the last of them, and where the cursor is when it has been asked for an
    error. -/
def Cursor.ended (cursor : Cursor σ) (last : σ) (values : List Datum) :
    Except RowError (List Datum) × σ :=
  match cursor.error last with
  | (some error, after) => (.error error, after)
  | (none, after) => (.ok values, after)

/-- What a reader reads from a row that stands alone. -/
def Reader.rowValue (Γ : Catalogue) (reader : Reader) (ty : Ty) (labels : List String)
    (row : List Value) : Except RowError Datum :=
  let table : Table := { columns := labels, rows := [row] }
  (reader.readRow Γ ty table.cursor (some 0)).1

theorem Feed.mapState_ofValues {τ : Type} (f : τ → σ) (state : τ) (width : Nat) (row : List Value) :
    (Feed.ofValues state width row).mapState f = .ofValues (f state) width row := by
  have fromColumn : ∀ column,
      (Feed.ofValuesFrom state column row).mapState f = .ofValuesFrom (f state) column row := by
    induction row with
    | nil => exact fun _ => rfl
    | cons v rest ih =>
        intro column
        simp only [ofValuesFrom, mapState, Feed.put.injEq, true_and]
        funext refused
        cases refused with
        | none => exact ih _
        | some error => rfl
  unfold ofValues
  split
  · exact fromColumn 0
  · rfl

namespace Reader

variable {Γ : Catalogue} {reader : Reader} {ty : Ty} {cursor : Cursor σ} {state after last : σ}
  {labels : List String} {row : List Value} {rows : List (List Value)} {plan : Plan}

/-! ## One row -/

theorem readBy_row (labels : List String)
    (fed : ∀ width, cursor.scan state width = .ofValues after width row) :
    readBy Γ plan ty cursor state =
      ((readBy Γ plan ty ({ columns := labels, rows := [row] } : Table).cursor (some 0)).1, after) := by
  let table : Table := { columns := labels, rows := [row] }
  have same : ∀ width, cursor.scan state width =
      (table.cursor.scan (some 0) width).mapState fun _ => after := fun width => by
    rw [fed]
    exact (Feed.mapState_ofValues (fun _ => after) (some 0) width row).symm
  exact readBy_mapState same

theorem rowValue_eq :
    reader.rowValue Γ ty labels row = (reader.plan Γ ty labels).1.bind fun plan =>
      (readBy Γ plan ty ({ columns := labels, rows := [row] } : Table).cursor (some 0)).1 := by
  simp only [rowValue, readRow, planCursor, Table.cursor]
  cases (reader.plan Γ ty labels).1 <;> rfl

theorem readBy_rowValue (planned : (reader.plan Γ ty labels).1 = .ok plan)
    (fed : ∀ width, cursor.scan state width = .ofValues after width row) :
    readBy Γ plan ty cursor state = (reader.rowValue Γ ty labels row, after) := by
  rw [readBy_row labels fed, rowValue_eq, planned]
  rfl

theorem readRow_offers (offers : cursor.Offers state labels row) :
    (reader.readRow Γ ty cursor state).1 = reader.rowValue Γ ty labels row := by
  obtain ⟨asked, after, told, fed⟩ := offers
  rw [rowValue_eq]
  simp only [readRow, planCursor, told]
  cases (reader.plan Γ ty labels).1 with
  | error error => rfl
  | ok plan => exact congrArg (·.1) (readBy_row labels fed)

theorem rowValue_sound {reader' : Reader} {depth : Nat} (sound : reader.Sound Γ depth)
    (sound' : reader'.Sound Γ depth) :
    reader.rowValue Γ ty labels row = reader'.rowValue Γ ty labels row :=
  (readRow_alike sound sound' ty _ _).answer

/-! ## All rows -/

theorem ended_cons (value : Datum) (values : List Datum) :
    cursor.ended last (value :: values) =
      (cursor.ended last values).map (Except.map (value :: ·)) id := by
  unfold Cursor.ended
  obtain ⟨_ | error, after⟩ := cursor.error last <;> rfl

/-- Rows that are delivered are read one by one, up to the first that is refused. -/
theorem readRest?_of_delivers {steps : Nat} (planned : (reader.plan Γ ty labels).1 = .ok plan)
    (delivers : cursor.Delivers labels rows state last) (enough : rows.length < steps) :
    match rows.mapM (reader.rowValue Γ ty labels) with
    | .error error => ∃ after, readRest? Γ plan ty cursor steps state = some (.error error, after)
    | .ok values => readRest? Γ plan ty cursor steps state = some (cursor.ended last values) := by
  induction delivers generalizing steps with
  | @done state last went =>
      obtain ⟨steps, rfl⟩ := Nat.exists_eq_add_one_of_ne_zero (Nat.ne_zero_of_lt enough)
      simp only [List.mapM_nil, readRest?, went, Cursor.ended]
      obtain ⟨_ | error, after⟩ := cursor.error last <;> rfl
  | @row state here after last row rows went told fed delivers ih =>
      obtain ⟨steps, rfl⟩ := Nat.exists_eq_add_one_of_ne_zero (Nat.ne_zero_of_lt enough)
      have later := ih (Nat.lt_of_succ_lt_succ enough)
      simp only [List.mapM_cons, readRest?, went, readBy_rowValue planned fed]
      cases reader.rowValue Γ ty labels row with
      | error error => exact ⟨after, rfl⟩
      | ok value =>
          cases all : rows.mapM (reader.rowValue Γ ty labels) with
          | error error =>
              obtain ⟨stop, ran⟩ := all ▸ later
              exact ⟨stop, by simp only [ran]; rfl⟩
          | ok values =>
              simp only [all] at later
              simp only [later]
              exact congrArg some (ended_cons value values).symm

theorem closing_ended (reader : Reader) (values : List Datum) :
    (closing cursor ((cursor.ended last values).1, reader, (cursor.ended last values).2)).1 =
      cursor.orLastError last (.ok values) := by
  simp only [Cursor.ended, Cursor.orLastError, Cursor.lastError, Except.bind]
  obtain ⟨_ | error, after⟩ := cursor.error last
  · simp only [closing]
    cases (cursor.close after).1 <;> rfl
  · rfl

theorem readAll?_of_delivers {steps : Nat} (delivers : cursor.Delivers labels rows state last)
    (enough : rows.length ≤ steps) :
    (reader.readAll? Γ ty cursor steps state).map (·.1) =
      some (cursor.orLastError last (rows.mapM (reader.rowValue Γ ty labels))) := by
  cases delivers with
  | done went =>
      simp only [List.mapM_nil, readAll?, readOpen?, went]
      refine Eq.trans ?_ (congrArg some (closing_ended reader []))
      simp only [Cursor.ended]
      obtain ⟨_ | error, after⟩ := cursor.error last <;> rfl
  | @row _ here after _ row rows went told fed delivers =>
      simp only [List.mapM_cons, readAll?, readOpen?, went, planCursor, told]
      cases planned : (reader.plan Γ ty labels).1 with
      | error error =>
          simp only [rowValue_eq, planned]
          rfl
      | ok plan =>
          have later :=
            @readRest?_of_delivers _ Γ reader ty cursor after last labels rows plan steps planned
              delivers enough
          simp only [readBy_rowValue planned fed]
          cases reader.rowValue Γ ty labels row with
          | error error => rfl
          | ok value =>
              cases all : rows.mapM (reader.rowValue Γ ty labels) with
              | error error =>
                  obtain ⟨stop, ran⟩ := all ▸ later
                  simp only [ran]
                  rfl
              | ok values =>
                  simp only [all] at later
                  simp only [later]
                  refine congrArg some (Eq.trans ?_
                    (closing_ended (reader.plan Γ ty labels).2 (value :: values)))
                  rw [ended_cons]
                  rfl

theorem readFirst_of_none (delivers : cursor.Delivers labels [] state last) :
    (reader.readFirst Γ ty cursor state).1 = .error ((cursor.error last).1.getD .noRows) := by
  cases delivers with
  | done went =>
      simp only [readFirst, went]
      rfl

theorem readFirst_of_row (delivers : cursor.Delivers labels (row :: rows) state last) :
    ∃ after, cursor.Delivers labels rows after last ∧
      (reader.readFirst Γ ty cursor state).1 =
        (reader.rowValue Γ ty labels row).bind fun value =>
          match (cursor.close after).1 with
          | some error => .error error
          | none => .ok value := by
  cases delivers with
  | @row _ here after _ _ _ went told fed delivers =>
      refine ⟨after, delivers, ?_⟩
      simp only [readFirst, went, readRow, planCursor, told]
      cases planned : (reader.plan Γ ty labels).1 with
      | error error =>
          simp only [rowValue_eq, planned]
          rfl
      | ok plan =>
          simp only [readBy_rowValue planned fed]
          cases reader.rowValue Γ ty labels row with
          | error error => rfl
          | ok value =>
              simp only [closing, Except.bind]
              cases (cursor.close after).1 <;> rfl

/-- Whatever a cursor answers, a reader that reads all of its rows, or the first one, calls it in
    order and closes it at last; as long as it is not done it calls it in order as well. That the
    calls are kept changes nothing. The rows of a cursor that delivers them under the same labels are
    each read as if they stood alone, by a reader of the same configuration, and the error of the
    first that is refused comes before the errors of the cursor and of closing it. -/
theorem reads_in_order {config : Config} {reader reader' : Reader}
    (used : Used Γ config.reader reader) (used' : Used Γ config.reader reader') (ty : Ty)
    (cursor : Cursor σ) (state : σ) :
    (∀ steps,
      (reader.readAll? Γ ty cursor.observed steps ([], state)).map (.map id (.map id Prod.snd)) =
        reader.readAll? Γ ty cursor steps state ∧
      match reader.readAll? Γ ty cursor.observed steps ([], state) with
      | some (answer, _, history, _) => ClosedLast answer history
      | none => ∃ values stop, values.length = steps + 1 ∧
          reader.HasRead Γ ty cursor.observed values ([], state) stop ∧ OpenHistory stop.1) ∧
    ((reader.readFirst Γ ty cursor.observed ([], state)).map id (.map id Prod.snd) =
        reader.readFirst Γ ty cursor state ∧
      ClosedLast (reader.readFirst Γ ty cursor.observed ([], state)).1
        (reader.readFirst Γ ty cursor.observed ([], state)).2.2.1) ∧
    (∀ labels row, cursor.Offers state labels row →
      (reader.readRow Γ ty cursor state).1 = reader'.rowValue Γ ty labels row) ∧
    ∀ labels rows last, cursor.Delivers labels rows state last →
      (∀ steps, rows.length ≤ steps →
        (reader.readAll? Γ ty cursor steps state).map (·.1) =
          some (cursor.orLastError last (rows.mapM (reader'.rowValue Γ ty labels)))) ∧
      (rows = [] →
        (reader.readFirst Γ ty cursor state).1 = .error ((cursor.error last).1.getD .noRows)) ∧
      ∀ row rest, rows = row :: rest →
        ∃ after, cursor.Delivers labels rest after last ∧
          (reader.readFirst Γ ty cursor state).1 =
            (reader'.rowValue Γ ty labels row).bind fun value =>
              match (cursor.close after).1 with
              | some error => .error error
              | none => .ok value := by
  have new : config.reader.Sound Γ config.maxDepth.toNat := sound_new _
  have same : ∀ labels row,
      reader'.rowValue Γ ty labels row = reader.rowValue Γ ty labels row := fun _ _ =>
    rowValue_sound (used_sound new used') (used_sound new used)
  have values : ∀ labels, reader'.rowValue Γ ty labels = reader.rowValue Γ ty labels :=
    fun labels => funext (same labels)
  refine ⟨fun steps => ⟨?_, ?_⟩, ⟨?_, ?_⟩, ?_, fun labels rows last delivers => ⟨?_, ?_, ?_⟩⟩
  · exact (readAll?_shadow (cursor.logging_shadows id) reader ty steps ([], state)).symm
  · split
    · rename_i ran
      exact readAll?_closedLast ran
    · rename_i unfinished
      obtain ⟨values, stop, length, reads⟩ := readAll?_eq_none unfinished
      exact ⟨values, stop, length, reads, reads.open⟩
  · exact (readFirst_shadow (cursor.logging_shadows id) reader ty ([], state)).symm
  · exact readFirst_closedLast reader
  · intro labels row offers
    rw [same]
    exact readRow_offers offers
  · intro steps enough
    rw [values]
    exact readAll?_of_delivers delivers enough
  · rintro rfl
    exact readFirst_of_none delivers
  · rintro row rest rfl
    rw [same]
    exact readFirst_of_row delivers

/-- All rows are read, and the only error is that of closing. -/
theorem reads_in_order_unclosable :
    let table : Table :=
      { columns := ["n"], rows := [[.int 1], [.uint 2]], closeError := some "late" }
    let reader := ({} : Config).reader
    let late : RowError := Table.failure "late"
    let history : List CursorEvent :=
      [.close (some late), .error none, .next false, .scan none, .next true, .scan none,
        .columns none, .next true]
    table.cursor.Delivers ["n"] table.rows none (some 2) ∧
      table.rows.mapM (reader.rowValue {} (.int .w64) ["n"]) = .ok [.whole 1, .whole 2] ∧
      (reader.readAll? {} (.int .w64) table.cursor 2 none).map (·.1) = some (.error late) ∧
      (reader.readAll? {} (.int .w64) table.cursor.observed 2 ([], none)).map (·.2.2.1) =
        some history ∧
      ClosedLast (.error late : Except RowError (List Datum)) history := by
  intro table reader late history
  have delivers : table.cursor.Delivers ["n"] table.rows none (some 2) :=
    .row rfl rfl (fun _ => rfl) (.row rfl rfl (fun _ => rfl) (.done rfl))
  have values : table.rows.mapM (reader.rowValue {} (.int .w64) ["n"]) =
      .ok [.whole 1, .whole 2] := by rfl
  have observed : (reader.readAll? {} (.int .w64) table.cursor.observed 2 ([], none)).map
      (fun result => (result.1, result.2.2.1)) = some (.error late, history) := by rfl
  have used : Used {} reader reader := .refl
  obtain ⟨all, -, -, rows⟩ := reads_in_order used used (.int .w64) table.cursor none
  have ran := (rows ["n"] table.rows (some 2) delivers).1 2 (by decide)
  have closes := (all 2).2
  rw [values] at ran
  obtain ⟨⟨answer, reader', history', last⟩, answered, same⟩ := Option.map_eq_some_iff.1 observed
  obtain ⟨rfl, rfl⟩ := Prod.mk.inj same
  rw [answered] at closes ⊢
  exact ⟨delivers, values, ran, rfl, closes⟩

end Reader

end SqlMarshal
