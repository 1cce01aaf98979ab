import SqlMarshal.Row.Slots

/-! # Cursors

A cursor goes through the rows of a result set. It is a machine with states of any kind: each of its
operations gives an answer and the state after it, and may fail. To hand over its current row a cursor
feeds values to slots, one column at a time, and sees whether each one was taken; so a feed is a tree
that branches on the answers of the slots.
-/

namespace SqlMarshal

/-- What a cursor does with the slots of a row: it puts values, each time going on by whether the
slots took it, and ends with an error or without and in a state. -/
inductive Feed (σ : Type) where
  | done (error : Option RowError) (state : σ)
  | put (column : Nat) (v : Value) (next : Option RowError → Feed σ)

namespace Feed

def run {σ : Type} (Γ : Catalogue) : Feed σ → RowSlots → RowSlots × Option RowError × σ
  | .done error state, slots => (slots, error, state)
  | .put column v next, slots =>
      let (slots, error) := slots.put Γ column v
      (next error).run Γ slots

/-- Feeds the values of columns in order, up to the first that is refused. -/
def ofValuesFrom {σ : Type} (state : σ) : (column : Nat) → List Value → Feed σ
  | _, [] => .done none state
  | column, v :: rest =>
      .put column v fun
        | some error => .done (some error) state
        | none => ofValuesFrom state (column + 1) rest

/-- Feeds a whole row, which must have as many values as there are slots. -/
def ofValues {σ : Type} (state : σ) (width : Nat) (values : List Value) : Feed σ :=
  if values.length = width then ofValuesFrom state 0 values
  else .done (some (.cursor (.width width values.length))) state

end Feed

/-- A cursor with states of type `σ`. -/
structure Cursor (σ : Type) where
  /-- The labels of the columns. -/
  columns : σ → Except RowError (List String) × σ
  /-- Goes to the next row; `false` when there is none or the cursor failed. -/
  next : σ → Bool × σ
  /-- Feeds the current row to slots of some number. -/
  scan : σ → (width : Nat) → Feed σ
  /-- The error that ended the rows, if one did. -/
  error : σ → Option RowError × σ
  /-- Ends the use of the cursor. -/
  close : σ → Option RowError × σ

/-- Changes the states in which a feed can end. -/
def Feed.mapState {σ τ : Type} (f : σ → τ) : Feed σ → Feed τ
  | .done error state => .done error (f state)
  | .put column v next => .put column v fun error => (next error).mapState f

/-! ## Watching a cursor -/

/-- The operations of a cursor. -/
inductive CursorCall where
  | columns | next | scan | error | close
  deriving DecidableEq, Repr

/-- A call that a cursor receives, with what it answers. -/
inductive CursorEvent where
  | columns (error : Option RowError)
  | next (found : Bool)
  | scan (error : Option RowError)
  | error (reported : Option RowError)
  | close (error : Option RowError)
  deriving DecidableEq, Repr

/-- The operation that is called. -/
def CursorEvent.call : CursorEvent → CursorCall
  | .columns _ => .columns
  | .next _ => .next
  | .scan _ => .scan
  | .error _ => .error
  | .close _ => .close

section Logging

variable {σ α : Type}

/-- A feed at the end of which the scan is logged. -/
def Feed.logging (note : CursorEvent → α) (log : List α) : Feed σ → Feed (List α × σ)
  | .done error state => .done error (note (.scan error) :: log, state)
  | .put column v next => .put column v fun error => (next error).logging note log

/-- A cursor that keeps a log of its calls, the latest first, with a note on each of them. -/
def Cursor.logging (note : CursorEvent → α) (cursor : Cursor σ) : Cursor (List α × σ) where
  columns := fun (log, state) =>
    match cursor.columns state with
    | (.ok labels, state) => (.ok labels, note (.columns none) :: log, state)
    | (.error error, state) => (.error error, note (.columns (some error)) :: log, state)
  next := fun (log, state) =>
    let (found, state) := cursor.next state
    (found, note (.next found) :: log, state)
  scan := fun (log, state) width => (cursor.scan state width).logging note log
  error := fun (log, state) =>
    let (error, state) := cursor.error state
    (error, note (.error error) :: log, state)
  close := fun (log, state) =>
    let (error, state) := cursor.close state
    (error, note (.close error) :: log, state)

/-- A cursor that keeps a record of the calls it receives. -/
def Cursor.recording (cursor : Cursor σ) : Cursor (List CursorCall × σ) :=
  cursor.logging CursorEvent.call

/-- A cursor that keeps the history of its calls and of its answers. -/
def Cursor.observed (cursor : Cursor σ) : Cursor (List CursorEvent × σ) :=
  cursor.logging id

end Logging

end SqlMarshal
