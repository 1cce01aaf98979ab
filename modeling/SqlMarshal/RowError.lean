import SqlMarshal.Value.Fault

/-! # Errors of reading rows

Besides a fault in one value, reading rows fails on the columns as a whole, on the types that rows are
read into, or in the cursor.
-/

namespace SqlMarshal

/-- Why a cursor could not serve a row. -/
inductive CursorFault where
  /-- A value came for a column that the row does not have. -/
  | columnOutOfRange (column : Nat) (typeName : String)
  /-- A row has another number of values than there are columns. -/
  | width (expected got : Nat)
  /-- The cursor's own words. -/
  | reported (text : String)
  deriving DecidableEq, Repr

def CursorFault.message : CursorFault → String
  | .columnOutOfRange column typeName =>
      "column " ++ Decimal.text column ++ " is out of range for " ++ typeName
  | .width expected got =>
      "expected " ++ Decimal.text expected ++ " destination arguments in scan, got "
        ++ Decimal.text got
  | .reported text => text

/-- Why rows could not be read. -/
inductive RowError where
  | zeroColumns
  | columnCount (typeName : String) (got : Nat)
  | conversion (fault : Fault)
  | recursiveType (typeName : String)
  | cursor (fault : CursorFault)
  | noRows
  deriving DecidableEq, Repr

namespace RowError

def message : RowError → String
  | .zeroColumns => "query returned zero columns"
  | .columnCount typeName got =>
      "cannot map " ++ Decimal.text got ++ " columns into " ++ typeName
        ++ ": scalar destinations take exactly 1 column"
  | .conversion fault => "conversion failed: " ++ fault.message
  | .recursiveType typeName => "record " ++ typeName ++ " nests itself through inline fields"
  | .cursor fault => "cursor: " ++ fault.message
  | .noRows => "no rows in result set"

/-- Names the column in which a conversion failed; other errors stay as they are. -/
def atColumn (column : Nat) (name : String) : RowError → RowError
  | .conversion fault => .conversion (.atColumn column name fault)
  | error => error

end RowError

end SqlMarshal
