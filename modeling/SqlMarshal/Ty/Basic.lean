import SqlMarshal.Document.Schema
import SqlMarshal.RowError
import SqlMarshal.Ty.FieldTag

/-! # Types

Rows are read into values of types, and values of types are bound as parameters. Types are built from
scalars by optional values, boxes, sequences and names of one's own, and from records and decoders
that a catalogue declares. A box only makes the size of a recursive record finite: what is boxed
behaves in every way like its content.

A type that is seen through its boxes and optional layers has a base, and the number of optional
layers in front of it is counted.
-/

namespace SqlMarshal

/-- The widths of whole numbers. -/
inductive Width where
  | w8 | w16 | w32 | w64
  deriving DecidableEq, Repr

def Width.bits : Width → Nat
  | .w8 => 8
  | .w16 => 16
  | .w32 => 32
  | .w64 => 64

/-- The types that values can have. -/
inductive Ty where
  | bool
  | int (width : Width)
  | uint (width : Width)
  /-- Floating point of 32 bits. -/
  | single
  /-- Floating point of 64 bits. -/
  | double
  | text
  /-- Text that belongs to someone else: it can be bound but not written. -/
  | borrowedText
  | timestamp
  /-- Bytes taken from any value as it comes. -/
  | rawBytes
  /-- A driver value of any kind. -/
  | value
  /-- A column that holds a JSON document. -/
  | document (schema : Schema)
  /-- A type with a decoder of its own, declared in the catalogue. -/
  | custom (name : String)
  /-- A value that may be absent. -/
  | optional (content : Ty)
  /-- A value behind a box. -/
  | boxed (content : Ty)
  /-- Items in order; a sequence of bytes is one scalar. -/
  | sequence (item : Ty)
  /-- A type of its own with the content of another one. -/
  | named (name : String) (content : Ty)
  /-- A record declared in the catalogue. -/
  | record (name : String)
  deriving DecidableEq, Repr

/-- A declared field of a record. -/
structure Field where
  name : String
  type : Ty
  tag : String
  /-- Whether the field is visible to reading and binding. -/
  exported : Bool
  /-- An anonymous field, whose own fields belong to the surrounding record. -/
  embedded : Bool
  deriving DecidableEq, Repr

/-- What a type with a decoder of its own makes of a driver value: from the value it holds and the
one that arrives, the value it holds then and the error if it refuses. -/
structure Decoder where
  decode : Value → Value → Value × Option RowError

/-- How messages spell the types that are not named by a catalogue. -/
structure TypeNames where
  text : String := "text"
  borrowedText : String := "borrowed text"
  timestamp : String := "timestamp"
  rawBytes : String := "raw bytes"
  value : String := "value"
  document : String := "document"
  anyDocument : String := "any"
  table : String := "table"
  optional : String := "optional"
  boxed : String := "boxed"
  sequence : String := "sequence"
  orderedMap : String := "ordered map"
  sortedMap : String := "sorted map"
  hashedMap : String := "hashed map"
  deriving DecidableEq, Repr

/-- The declared records and decoders, and the spelling of all other types. -/
structure Catalogue where
  records : List (String × List Field) := []
  decoders : List (String × Decoder) := []
  names : TypeNames := {}

namespace Catalogue

/-- The fields of a record; one that is not declared has none. -/
def fields (Γ : Catalogue) (name : String) : List Field :=
  (Γ.records.lookup name).getD []

/-- The decoder of a type; one that is not declared keeps every value as it comes. -/
def decoder (Γ : Catalogue) (name : String) : Decoder :=
  (Γ.decoders.lookup name).getD ⟨fun _ raw => (raw, none)⟩

end Catalogue

namespace Ty

/-- A type without the boxes around it. -/
def unboxed : Ty → Ty
  | .boxed content => content.unboxed
  | ty => ty

/-- The number of optional layers in front of the base, boxes and names notwithstanding. -/
def layers : Ty → Nat
  | .optional content => content.layers + 1
  | .boxed content => content.layers
  | .named _ content => content.layers
  | _ => 0

/-- The type behind all optional layers. A name of its own stays as long as no layer is behind it. -/
def base : Ty → Ty
  | .optional content => content.base
  | .boxed content => content.base
  | .named name content => if content.layers = 0 then .named name content else content.base
  | ty => ty

/-- The declared fields of a record, boxes and names around it notwithstanding. -/
def fields? (Γ : Catalogue) : Ty → Option (List Field)
  | .record name => some (Γ.fields name)
  | .boxed content => content.fields? Γ
  | .named _ content => content.fields? Γ
  | _ => none

/-- Whether a type, seen through its optional layers, is a record. -/
def isRecord (Γ : Catalogue) (ty : Ty) : Bool :=
  (ty.base.fields? Γ).isSome

/-- The type of the field that a path leads to; optional layers between two steps are seen
through. -/
def at? (Γ : Catalogue) (ty : Ty) : List Nat → Option Ty
  | [] => some ty
  | index :: rest => do
      let fields ← ty.base.fields? Γ
      let field ← fields[index]?
      field.type.at? Γ rest

end Ty

end SqlMarshal
