import SqlMarshal.Ty.Basic

/-! # Values of types

A datum is the content of a value; its type is known beside it. Boxes and names of one's own leave no
trace in a datum. Every type has a datum that new values start from: zero, the empty text, the start
of 1970, nothing.
-/

namespace SqlMarshal

/-- The content of a value of some type. -/
inductive Datum where
  | bool (b : Bool)
  /-- A whole number of any width. -/
  | whole (n : Int)
  /-- A floating point number of either width. -/
  | float (x : Binary64)
  | text (s : String)
  | bytes (b : List UInt8)
  | timestamp (t : Timestamp)
  /-- A driver value, also that held by a decoder. -/
  | value (v : Value)
  | document (d : Document)
  /-- An optional value that is not there. -/
  | absent
  /-- An optional value that is there. -/
  | present (content : Datum)
  | record (fields : List Datum)
  | sequence (items : List Datum)
  deriving Repr

/-- The content of an optional value, or another one in place of what is not there. -/
def Datum.contentOr (d initial : Datum) : Datum :=
  match d with
  | .present content => content
  | _ => initial

namespace Ty

/-- The datum that a value starts from, given those of records. -/
def initialWith (ofRecord : String → Datum) : Ty → Datum
  | .bool => .bool false
  | .int _ | .uint _ => .whole 0
  | .single | .double => .float (.zero false)
  | .text | .borrowedText => .text ""
  | .timestamp => .timestamp ⟨0, 0⟩
  | .rawBytes => .bytes []
  | .value | .custom _ => .value .null
  | .document schema => .document schema.initial
  | .optional _ => .absent
  | .boxed content => content.initialWith ofRecord
  | .sequence item => if item = .uint .w8 then .bytes [] else .sequence []
  | .named _ content => content.initialWith ofRecord
  | .record name => ofRecord name

end Ty

namespace Catalogue

/-- The datum that a record starts from, when records that hold records are nested at most `depth`
deep. -/
def initialRecord (Γ : Catalogue) : (depth : Nat) → String → Datum
  | 0, _ => .record []
  | depth + 1, name =>
      .record ((Γ.fields name).map fun field => field.type.initialWith (Γ.initialRecord depth))

end Catalogue

/-- The datum that a value of a type starts from. Records that hold records by value, and not behind
an optional layer, cannot be nested deeper than there are records. -/
def Ty.initial (Γ : Catalogue) (ty : Ty) : Datum :=
  ty.initialWith (Γ.initialRecord Γ.records.length)

end SqlMarshal
