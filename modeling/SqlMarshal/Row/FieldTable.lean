import SqlMarshal.Text.Lowercase
import SqlMarshal.Ty.Info

/-! # The fields of a record by name

The fields that columns are matched with are the leaves of a record: its visible fields and, in place
of a record that is embedded or inlined, the leaves of that record. Where two leaves have one name the
first of them, in the order of declaration, has it. Records that would take themselves in without end
are refused, and so are those nested deeper than a limit.
-/

namespace SqlMarshal

/-- The positions of the fields to step through, from a record down to a field. The empty path leads
to the record itself. -/
abbrev Path := List Nat

/-- What part a field takes in matching columns. -/
inductive FieldRole where
  /-- The field takes no part. -/
  | hidden
  /-- The field is matched by its name. -/
  | leaf (name : String)
  /-- The fields of the record take part in place of it. -/
  | flattened
  deriving DecidableEq, Repr

def Field.role (Γ : Catalogue) (field : Field) : FieldRole :=
  let tag := FieldTag.parse field.tag
  if (!field.exported && !field.embedded) || tag.omitted then .hidden
  else if field.type.isRecord Γ && (tag.inlined || (field.embedded && tag.name == "")) then
    .flattened
  else if field.exported then .leaf (lowerAscii (tag.nameOr field.name))
  else .hidden

/-- A field that columns are matched with. -/
structure Leaf where
  name : String
  path : Path
  deriving DecidableEq, Repr

/-- The leaves of some fields, the first of which has a position; `descend` gives those of a record
that is taken in. -/
def leavesOf (Γ : Catalogue) (descend : Ty → Path → Except RowError (List Leaf)) (above : Path) :
    (position : Nat) → List Field → Except RowError (List Leaf)
  | _, [] => .ok []
  | position, field :: rest => do
      let path := above ++ [position]
      let own ← match field.role Γ with
        | .hidden => .ok []
        | .leaf name => .ok [⟨name, path⟩]
        | .flattened => descend field.type.base path
      let others ← leavesOf Γ descend above (position + 1) rest
      return own ++ others

/-- The leaves of a record that is taken in at a path: `inside` are the records it is inside of, and
`room` is how many more levels may be taken in. -/
def leavesWithin (Γ : Catalogue) :
    (room : Nat) → (inside : List Ty) → Ty → Path → Except RowError (List Leaf)
  | 0, _, ty, _ => .error (.recursiveType (ty.name Γ))
  | room + 1, inside, ty, path =>
      if ty ∈ inside then
        .error (.recursiveType (ty.name Γ))
      else
        leavesOf Γ (leavesWithin Γ room (ty :: inside)) path 0 ((ty.fields? Γ).getD [])

/-- Which field each name belongs to; every name occurs once. -/
structure FieldTable where
  entries : List (String × Path)
  deriving DecidableEq, Repr

namespace FieldTable

/-- Gives each name to the first leaf that has it. -/
def entriesOf : List Leaf → List (String × Path)
  | [] => []
  | leaf :: rest => (leaf.name, leaf.path) :: (entriesOf rest).filter fun entry => entry.1 != leaf.name

def ofLeaves (leaves : List Leaf) : FieldTable :=
  ⟨entriesOf leaves⟩

/-- The table of the record behind a type, with at most `depth` levels of records taken in. What is
no record has an empty table. -/
def build (Γ : Catalogue) (ty : Ty) (depth : Nat) : Except RowError FieldTable :=
  match ty.base.fields? Γ with
  | some _ => (leavesWithin Γ (depth + 1) [] ty.base []).map ofLeaves
  | none => .ok ⟨[]⟩

def get? (table : FieldTable) (name : String) : Option Path :=
  table.entries.lookup name

def size (table : FieldTable) : Nat :=
  table.entries.length

end FieldTable

end SqlMarshal
