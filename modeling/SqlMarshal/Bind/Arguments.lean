import SqlMarshal.Bind.Param
import SqlMarshal.Query.Error
import SqlMarshal.Text.Lowercase

/-! # Named arguments

Arguments are found by name in a map or in the fields of a record, without regard to case. An embedded
record gives its fields to the record around it, unless it is behind an optional layer that is not
there; then it gives none. Two fields of one name are an error, while the last of two entries of a map
counts.
-/

namespace SqlMarshal

/-- The value behind all optional layers of a value, if every layer is there. -/
def Ty.behindLayers? : (layers : Nat) → Ty → Datum → Option (Ty × Datum)
  | 0, ty, d => some (ty, d)
  | layers + 1, ty, d => do
      let (content, inner) ← ty.pointee? d
      content.behindLayers? layers inner

mutual

def Datum.depth : Datum → Nat
  | .present content => content.depth + 1
  | .record items => Datum.depthOfAll items + 1
  | _ => 0

def Datum.depthOfAll : List Datum → Nat
  | [] => 0
  | d :: rest => max d.depth (Datum.depthOfAll rest)

end

/-- What part a field takes in finding arguments. -/
inductive ArgumentRole where
  /-- The field takes no part. -/
  | hidden
  /-- The field is an argument of a name. -/
  | leaf (name : String)
  /-- The fields of the record take part in place of it. -/
  | flattened
  deriving DecidableEq, Repr

def Field.argumentRole (Γ : Catalogue) (field : Field) : ArgumentRole :=
  let tag := FieldTag.parse field.tag
  if (!field.exported && !field.embedded) || tag.omitted then .hidden
  else if field.embedded && field.type.isRecord Γ then .flattened
  else if field.exported then .leaf (lower (tag.nameOr field.name))
  else .hidden

/-- The arguments in some fields of a record, the first of which has a position; `descend` gives those
in a record that gives its fields to this one. -/
def argumentsOf (Γ : Catalogue) (descend : Ty → Datum → List (String × Param)) (ty : Ty)
    (d : Datum) : (position : Nat) → List Field → List (String × Param)
  | _, [] => []
  | position, field :: rest =>
      let own := match field.argumentRole Γ, ty.field? Γ position d with
        | .hidden, _ => []
        | _, none => []
        | .leaf name, some (type, content) => [(name, .datum type content)]
        | .flattened, some (type, content) =>
            match type.behindLayers? type.layers content with
            | some (inner, content) => descend inner content
            | none => []
      own ++ argumentsOf Γ descend ty d (position + 1) rest

/-- The arguments in a record, when records are nested in it at most `depth` deep. -/
def argumentsWithin (Γ : Catalogue) : (depth : Nat) → Ty → Datum → List (String × Param)
  | 0, _, _ => []
  | depth + 1, ty, d => argumentsOf Γ (argumentsWithin Γ depth) ty d 0 ((ty.fields? Γ).getD [])

/-- The arguments in a record in the order of declaration. -/
def Ty.arguments (Γ : Catalogue) (ty : Ty) (d : Datum) : List (String × Param) :=
  argumentsWithin Γ d.depth ty d

/-- Parameters by name; every name is in lower case and occurs once. -/
structure Arguments where
  entries : List (String × Param)

namespace Arguments

/-- Gives every name to one argument, or fails at the first name that comes a second time. -/
def ofDistinct (found : List (String × Param)) :
    List (String × Param) → Except QueryError Arguments
  | [] => .ok ⟨found⟩
  | (key, param) :: rest =>
      if found.any (·.1 == key) then .error (.duplicateKey key)
      else ofDistinct (found ++ [(key, param)]) rest

/-- The arguments in the entries of a map. -/
def ofEntries (entries : List (String × Param)) : Arguments :=
  ⟨entries.foldl (fun found entry => MapKind.ordered.insert (lower entry.1) entry.2 found) []⟩

/-- The arguments in a value of a type behind which there is no optional layer. -/
def ofDatum (Γ : Catalogue) (ty : Ty) (d : Datum) : Except QueryError Arguments :=
  match ty.fields? Γ with
  | some _ => ofDistinct [] (ty.arguments Γ d)
  | none => .error (.unsupportedArgument (ty.name Γ))

/-- The arguments in a parameter, which must be a map or a record, behind any number of optional
layers that are all there. -/
def build (Γ : Catalogue) (param : Param) : Except QueryError Arguments :=
  match param with
  | .map _ entries => .ok (ofEntries entries)
  | .datum type d =>
      match type.behindLayers? type.layers d with
      | some (base, content) => ofDatum Γ base content
      | none => .error .nilParameters
  | param => .error (.unsupportedArgument (param.info Γ).name)

/-- The argument of a name, in any case. -/
def get? (arguments : Arguments) (name : String) : Option Param :=
  arguments.entries.lookup (lower name)

def size (arguments : Arguments) : Nat :=
  arguments.entries.length

end Arguments

end SqlMarshal
