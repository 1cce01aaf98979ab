import SqlMarshal.Cursor.Basic

/-! # Tables in memory as cursors

A table of rows under fixed columns can be read through a cursor whose state is the position of the
current row. The cursor can be told to fail at a row, on asking for the columns, or on being closed.
-/

namespace SqlMarshal

/-- Rows of values under columns, and the failures of a cursor over them. -/
structure Table where
  columns : List String
  rows : List (List Value)
  /-- The number of rows after which the cursor fails. -/
  failAfter : Option Nat := none
  columnsError : Option String := none
  closeError : Option String := none
  deriving DecidableEq, Repr

namespace Table

def failure (text : String) : RowError :=
  .cursor (.reported text)

def failsAt (table : Table) (position : Nat) : Bool :=
  match table.failAfter with
  | some limit => decide (limit ≤ position)
  | none => false

def following : Option Nat → Nat
  | none => 0
  | some position => position + 1

/-- The cursor over a table; no position is before the first row. -/
def cursor (table : Table) : Cursor (Option Nat) where
  columns := fun position =>
    (match table.columnsError with
      | some text => .error (failure text)
      | none => .ok table.columns, position)
  next := fun position =>
    let position' := following position
    if table.failsAt position' then (false, position)
    else (decide (position' < table.rows.length), some position')
  scan := fun position width =>
    match position.bind (table.rows[·]?) with
    | some row => .ofValues position width row
    | none => .done (some (failure "scan called without a current row")) position
  error := fun position =>
    (table.failAfter.map fun limit =>
      failure ("connection lost after " ++ Decimal.text limit ++ " rows"), position)
  close := fun position => (table.closeError.map failure, position)

/-- More rows than the cursor can go to. -/
def stepBound (table : Table) : Nat :=
  table.rows.length + 1

end Table

end SqlMarshal
