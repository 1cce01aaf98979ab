import SqlMarshal.Ty.Basic

/-! # What is known of a type

The description of a type holds its name, its kind, and whether it has a name of its own or a decoder
of its own. A box does not show in it: what is boxed is described like its content. Only inside the
name of another type a box is spelled out. Parameters that are not values of a type, such as slices
and maps, are described in the same way.
-/

namespace SqlMarshal

/-- The structural kinds. -/
inductive Kind where
  | bool
  | int (width : Width)
  | uint (width : Width)
  | single
  | double
  | text
  | bytes
  | timestamp
  | rawBytes
  | record (fields : List Field)
  /-- An optional layer over another type. -/
  | pointer (pointee : Ty)
  | sequence (item : Ty)
  /-- A table keyed by text. -/
  | map
  | other
  deriving DecidableEq, Repr

/-- The description of a type. -/
structure TypeInfo where
  name : String
  kind : Kind
  /-- A type of its own with the content of another one. -/
  named : Bool
  /-- A type with a decoder of its own. -/
  decodes : Bool
  deriving DecidableEq, Repr

def applyName (name argument : String) : String :=
  name ++ "<" ++ argument ++ ">"

namespace Width

def signedName (width : Width) : String :=
  "i" ++ Decimal.text width.bits

def unsignedName (width : Width) : String :=
  "u" ++ Decimal.text width.bits

end Width

def Schema.name (names : TypeNames) : Schema → String
  | .any => names.anyDocument
  | .int64 => "i64"
  | .text => names.text
  | .list item => applyName names.sequence (item.name names)
  | .table item => applyName names.table (names.text ++ ", " ++ item.name names)

namespace Ty

/-- The name of a type as it is spelled inside other names. -/
def spelledName (Γ : Catalogue) : Ty → String
  | .bool => "bool"
  | .int width => width.signedName
  | .uint width => width.unsignedName
  | .single => "f32"
  | .double => "f64"
  | .text => Γ.names.text
  | .borrowedText => Γ.names.borrowedText
  | .timestamp => Γ.names.timestamp
  | .rawBytes => Γ.names.rawBytes
  | .value => Γ.names.value
  | .document schema => applyName Γ.names.document (schema.name Γ.names)
  | .custom name => name
  | .optional content => applyName Γ.names.optional (content.spelledName Γ)
  | .boxed content => applyName Γ.names.boxed (content.spelledName Γ)
  | .sequence item => applyName Γ.names.sequence (item.spelledName Γ)
  | .named name _ => name
  | .record name => name

/-- The name by which a type is described, its boxes left out. -/
def name (Γ : Catalogue) (ty : Ty) : String :=
  ty.unboxed.spelledName Γ

def kind (Γ : Catalogue) : Ty → Kind
  | .bool => .bool
  | .int width => .int width
  | .uint width => .uint width
  | .single => .single
  | .double => .double
  | .text | .borrowedText => .text
  | .timestamp => .timestamp
  | .rawBytes => .rawBytes
  | .value | .document _ | .custom _ => .other
  | .optional content => .pointer content
  | .boxed content => content.kind Γ
  | .sequence item => if item = .uint .w8 then .bytes else .sequence item
  | .named _ content => content.kind Γ
  | .record name => .record (Γ.fields name)

def isNamed : Ty → Bool
  | .named .. => true
  | .boxed content => content.isNamed
  | _ => false

def decodes : Ty → Bool
  | .document _ | .custom _ => true
  | .boxed content => content.decodes
  | _ => false

def info (Γ : Catalogue) (ty : Ty) : TypeInfo :=
  ⟨ty.name Γ, ty.kind Γ, ty.isNamed, ty.decodes⟩

/-- Whether two types are described as one and the same type. -/
def same (a b : Ty) : Bool :=
  a.unboxed == b.unboxed

end Ty

namespace TypeInfo

/-- The description behind all optional layers, and the number of layers. -/
def peel (Γ : Catalogue) (info : TypeInfo) : TypeInfo × Nat :=
  match info.kind with
  | .pointer pointee => (pointee.base.info Γ, pointee.layers + 1)
  | _ => (info, 0)

def isPointer (info : TypeInfo) : Bool :=
  match info.kind with
  | .pointer _ => true
  | _ => false

def fields? (info : TypeInfo) : Option (List Field) :=
  match info.kind with
  | .record fields => some fields
  | _ => none

/-- Whether the description, seen through its optional layers, is of a record. -/
def isRecord (Γ : Catalogue) (info : TypeInfo) : Bool :=
  (info.peel Γ).1.fields?.isSome

/-- Whether the base of the description takes driver values as they are. -/
def isScannable (Γ : Catalogue) (info : TypeInfo) : Bool :=
  match (info.peel Γ).1.kind with
  | .record _ | .pointer _ | .sequence _ | .map | .other => false
  | _ => true

end TypeInfo

end SqlMarshal
