import SqlMarshal.Row.Columns
import SqlMarshal.Row.Conversion
import SqlMarshal.Row.FieldTable

/-! # Plans of reading rows

A plan says for every column of a result set what becomes of its value. A record takes the values of
the columns that are named like its fields and leaves the others; anything else is read from a result
set of exactly one column.
-/

namespace SqlMarshal

/-- What becomes of the value of a column. -/
inductive Step where
  /-- No field has the name of the column, and the value is left. -/
  | drop
  /-- The field at a path stores the value. -/
  | direct (path : Path)
  /-- The value is staged and converted into the field at a path. -/
  | staged (path : Path) (conversion : Conversion)
  /-- The destination decodes the only column itself. -/
  | whole
  deriving DecidableEq, Repr

/-- One step for each column of a result set. -/
structure Plan where
  typeName : String
  columns : List String
  steps : List Step
  /-- The destination is a record. -/
  composite : Bool
  /-- The destination decodes the only column itself. -/
  wholeDecode : Bool
  deriving DecidableEq, Repr

namespace Plan

def columnName (plan : Plan) (column : Nat) : String :=
  (plan.columns[column]?).getD "?"

/-- The step of a column whose value goes to the end of a path. -/
def stepTo (Γ : Catalogue) (ty : Ty) (path : Path) : Step :=
  match ty.at? Γ path with
  | none => .drop
  | some field =>
      match (field.info Γ).strategy Γ with
      | .direct => .direct path
      | .staged conversion => .staged path conversion

def ofRecord (Γ : Catalogue) (ty : Ty) (columns : Columns) (table : FieldTable) : Plan where
  typeName := ty.name Γ
  columns := columns.names
  steps := columns.names.map fun name =>
    match table.get? name with
    | some path => stepTo Γ ty path
    | none => .drop
  composite := true
  wholeDecode := false

def ofScalar (Γ : Catalogue) (ty : Ty) (columns : Columns) : Except RowError Plan :=
  if columns.size = 1 then
    let decodes := ty.base.decodes
    .ok { typeName := ty.name Γ
          columns := columns.names
          steps := [if decodes then .whole else stepTo Γ ty []]
          composite := false
          wholeDecode := decodes }
  else
    .error (.columnCount (ty.name Γ) columns.size)

/-- The plan of a type; a record without a table of its fields is read from one column. -/
def build (Γ : Catalogue) (ty : Ty) (columns : Columns) (table : Option FieldTable) :
    Except RowError Plan :=
  if columns.names = [] then
    .error .zeroColumns
  else
    match table with
    | some table =>
        if ty.isRecord Γ then .ok (ofRecord Γ ty columns table) else ofScalar Γ ty columns
    | none => ofScalar Γ ty columns

end Plan

end SqlMarshal
