import SqlMarshal.Value.Described

/-! # Faults of conversion

A fault says why one value could not be converted or stored. A fault that arises in a row is wrapped
with the column it arose in.
-/

namespace SqlMarshal

/-- A number that does not fit its destination. -/
inductive Quantity where
  | whole (n : Int)
  | float (x : Binary64)
  deriving DecidableEq, Repr

/-- Why a value could not be converted or stored. -/
inductive Fault where
  /-- A value of the kind `source` has no form as a `target`. -/
  | unsupported (source target : String)
  /-- A destination does not take scalars of the kind `source`. -/
  | mismatch (source target : String)
  | overflow (number : Quantity) (target : String)
  | nullInto (target : String)
  /-- There is no field at step number `hop` of a path. -/
  | brokenPath (path : List Nat) (hop : Nat)
  /-- A destination has fewer pointer layers than were counted for it. -/
  | missingLayer (layer layers : Nat)
  /-- A column that goes through a stage has none. -/
  | missingStage
  /-- A staged value is not of the family that its conversion takes. -/
  | wrongFamily (staged : Staged) (target : String)
  | malformedDocument
  /-- A decoder's own words. -/
  | custom (text : String)
  | atColumn (column : Nat) (name : String) (fault : Fault)
  deriving DecidableEq, Repr

def Quantity.text : Quantity → String
  | .whole n => Decimal.text n
  | .float x => x.text .plain

def Fault.message : Fault → String
  | .unsupported source target => "cannot convert " ++ source ++ " value into " ++ target
  | .mismatch source target => "cannot assign " ++ source ++ " into " ++ target
  | .overflow number target => "value " ++ number.text ++ " overflows " ++ target
  | .nullInto target => "cannot store NULL into " ++ target
  | .brokenPath path hop =>
      "field path " ++ describeList (path.map fun hop => Decimal.text (hop : Nat))
        ++ " breaks at hop " ++ Decimal.text hop
  | .missingLayer layer layers =>
      "pointer layer " ++ Decimal.text layer ++ " of " ++ Decimal.text layers ++ " is missing"
  | .missingStage => "missing temporary"
  | .wrongFamily staged target =>
      "temporary " ++ staged.describe ++ " does not convert into " ++ target
  | .malformedDocument => "invalid json document"
  | .custom text => text
  | .atColumn column name fault =>
      "column " ++ Decimal.text column ++ " (" ++ name ++ "): " ++ fault.message

end SqlMarshal
