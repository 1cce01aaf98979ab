import SqlMarshal.Cursor.Basic

/-! # Reading rows

A reader makes values of rows. It keeps the tables of fields and the plans it has built, so that a
type and a list of columns are planned once. A plan is found again by its type, the hash of its
columns and their number; when other columns have the same hash they are planned each time anew.
-/

namespace SqlMarshal

/-- By what a plan is found again. -/
structure PlanKey where
  type : Ty
  hash : UInt64
  columns : Nat
  deriving DecidableEq, Repr

def PlanKey.of (ty : Ty) (columns : Columns) : PlanKey :=
  ⟨ty, columns.hash, columns.size⟩

/-- A reader: a limit on how deep records are taken into records, and what has been built so far. -/
structure Reader where
  depth : Nat
  plans : List (PlanKey × Plan) := []
  tables : List (Ty × FieldTable) := []
  deriving DecidableEq, Repr

namespace Reader

def fieldTable (Γ : Catalogue) (reader : Reader) (ty : Ty) :
    Except RowError FieldTable × Reader :=
  match reader.tables.lookup ty.base with
  | some table => (.ok table, reader)
  | none =>
      match FieldTable.build Γ ty.base reader.depth with
      | .ok table => (.ok table, { reader with tables := (ty.base, table) :: reader.tables })
      | .error error => (.error error, reader)

def buildPlan (Γ : Catalogue) (reader : Reader) (ty : Ty) (columns : Columns) :
    Except RowError Plan × Reader :=
  if ty.isRecord Γ then
    match reader.fieldTable Γ ty with
    | (.ok table, reader) => (Plan.build Γ ty columns (some table), reader)
    | (.error error, reader) => (.error error, reader)
  else
    (Plan.build Γ ty columns none, reader)

def planFor (Γ : Catalogue) (reader : Reader) (ty : Ty) (columns : Columns) :
    Except RowError Plan × Reader :=
  if columns.names = [] then
    (.error .zeroColumns, reader)
  else
    match reader.plans.lookup (.of ty columns) with
    | some plan =>
        if plan.columns = columns.names then (.ok plan, reader)
        else reader.buildPlan Γ ty columns
    | none =>
        match reader.buildPlan Γ ty columns with
        | (.ok plan, reader) =>
            (.ok plan, { reader with plans := (.of ty columns, plan) :: reader.plans })
        | (.error error, reader) => (.error error, reader)

def plan (Γ : Catalogue) (reader : Reader) (ty : Ty) (labels : List String) :
    Except RowError Plan × Reader :=
  reader.planFor Γ ty (.ofLabels labels)

def readBy {σ : Type} (Γ : Catalogue) (plan : Plan) (ty : Ty) (cursor : Cursor σ) (state : σ) :
    Except RowError Datum × σ :=
  let slots := RowSlots.start plan ty (ty.initial Γ)
  match (cursor.scan state slots.width).run Γ slots with
  | (_, some error, state) => (.error error, state)
  | (slots, none, state) =>
      match slots.finish Γ with
      | (_, some error) => (.error error, state)
      | (value, none) => (.ok value, state)

def planCursor {σ : Type} (Γ : Catalogue) (reader : Reader) (ty : Ty) (cursor : Cursor σ)
    (state : σ) : Except RowError Plan × Reader × σ :=
  match cursor.columns state with
  | (.error error, state) => (.error error, reader, state)
  | (.ok labels, state) =>
      let (plan, reader) := reader.plan Γ ty labels
      (plan, reader, state)

def readRow {σ : Type} (Γ : Catalogue) (reader : Reader) (ty : Ty) (cursor : Cursor σ)
    (state : σ) : Except RowError Datum × Reader × σ :=
  match reader.planCursor Γ ty cursor state with
  | (.error error, reader, state) => (.error error, reader, state)
  | (.ok plan, reader, state) =>
      let (value, state) := readBy Γ plan ty cursor state
      (value, reader, state)

/-- Reads the rows that follow by a plan, in at most `steps` steps of the cursor. -/
def readRest? {σ : Type} (Γ : Catalogue) (plan : Plan) (ty : Ty) (cursor : Cursor σ) :
    (steps : Nat) → σ → Option (Except RowError (List Datum) × σ)
  | 0, _ => none
  | steps + 1, state =>
      match cursor.next state with
      | (false, state) =>
          match cursor.error state with
          | (some error, state) => some (.error error, state)
          | (none, state) => some (.ok [], state)
      | (true, state) =>
          match readBy Γ plan ty cursor state with
          | (.error error, state) => some (.error error, state)
          | (.ok value, state) =>
              (readRest? Γ plan ty cursor steps state).map fun (values, state) =>
                (values.map (value :: ·), state)

/-- Reads all rows of a cursor without closing it. The columns are asked for at the first row, so a
result without rows is never refused for its columns. -/
def readOpen? {σ : Type} (Γ : Catalogue) (reader : Reader) (ty : Ty) (cursor : Cursor σ)
    (steps : Nat) (state : σ) : Option (Except RowError (List Datum) × Reader × σ) :=
  match cursor.next state with
  | (false, state) =>
      match cursor.error state with
      | (some error, state) => some (.error error, reader, state)
      | (none, state) => some (.ok [], reader, state)
  | (true, state) =>
      match reader.planCursor Γ ty cursor state with
      | (.error error, reader, state) => some (.error error, reader, state)
      | (.ok plan, reader, state) =>
          match readBy Γ plan ty cursor state with
          | (.error error, state) => some (.error error, reader, state)
          | (.ok value, state) =>
              (readRest? Γ plan ty cursor steps state).map fun (values, state) =>
                (values.map (value :: ·), reader, state)

/-- Closes a cursor after use. The error of the use comes before that of closing. -/
def closing {σ α : Type} (cursor : Cursor σ) (result : Except RowError α × Reader × σ) :
    Except RowError α × Reader × σ :=
  let (answer, reader, state) := result
  let (error, state) := cursor.close state
  match answer, error with
  | .error error, _ => (.error error, reader, state)
  | .ok _, some error => (.error error, reader, state)
  | .ok value, none => (.ok value, reader, state)

/-- Reads all rows of a cursor and closes it. A cursor that goes on for more than `steps` steps after
the first gives no answer. -/
def readAll? {σ : Type} (Γ : Catalogue) (reader : Reader) (ty : Ty) (cursor : Cursor σ)
    (steps : Nat) (state : σ) : Option (Except RowError (List Datum) × Reader × σ) :=
  (reader.readOpen? Γ ty cursor steps state).map (closing cursor)

/-- Reads the first row of a cursor and closes it. -/
def readFirst {σ : Type} (Γ : Catalogue) (reader : Reader) (ty : Ty) (cursor : Cursor σ)
    (state : σ) : Except RowError Datum × Reader × σ :=
  closing cursor <|
    match cursor.next state with
    | (true, state) => reader.readRow Γ ty cursor state
    | (false, state) =>
        let (error, state) := cursor.error state
        (.error (error.getD .noRows), reader, state)

end Reader

end SqlMarshal
