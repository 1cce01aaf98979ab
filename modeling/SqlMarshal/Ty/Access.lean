import SqlMarshal.Ty.Datum
import SqlMarshal.Ty.Info
import SqlMarshal.Ty.Write

/-! # Access to the parts of values

The parts of a value are read by looking and written by visiting. Looking finds nothing behind an
optional layer that is not there. A visit makes the layers it passes through, hands the part to the
visitor and puts back what the visitor leaves, together with the visitor's answer.

A name of one's own passes on everything but fields: what it names may be optional or a sequence, but
is not looked into as a record.
-/

namespace SqlMarshal.Ty

/-! ## Looking -/

def field? (Γ : Catalogue) (index : Nat) : Ty → Datum → Option (Ty × Datum)
  | .optional content, .present d => content.field? Γ index d
  | .boxed content, d => content.field? Γ index d
  | .record name, .record items => do
      let field ← (Γ.fields name)[index]?
      let item ← items[index]?
      return (field.type, item)
  | _, _ => none

def pointee? : Ty → Datum → Option (Ty × Datum)
  | .optional content, .present d => some (content, d)
  | .boxed content, d => content.pointee? d
  | .named _ content, d => content.pointee? d
  | _, _ => none

/-- The items of a sequence and their type. Bytes are one scalar and have no items. -/
def elements? : Ty → Datum → Option (Ty × List Datum)
  | .optional content, .present d => content.elements? d
  | .boxed content, d => content.elements? d
  | .named _ content, d => content.elements? d
  | .sequence item, .sequence items => if item = .uint .w8 then none else some (item, items)
  | _, _ => none

/-- The driver value that a scalar is bound as. What is not there is bound as NULL. -/
def toValue? : Ty → Datum → Option Value
  | .bool, .bool b => some (.bool b)
  | .int _, .whole n => some (.int (Int64.ofInt n))
  | .uint _, .whole n => some (.uint (UInt64.ofNat n.toNat))
  | .single, .float x => some (.float x)
  | .double, .float x => some (.float x)
  | .text, .text s => some (.text s)
  | .borrowedText, .text s => some (.text s)
  | .timestamp, .timestamp t => some (.timestamp t)
  | .rawBytes, .bytes b => some (.bytes b)
  | .value, .value v => some v
  | .document _, .document d => some (.text d.write)
  | .optional _, .absent => some .null
  | .optional content, .present d => content.toValue? d
  | .boxed content, d => content.toValue? d
  | .sequence item, .bytes b => if item = .uint .w8 then some (.bytes b) else none
  | .named _ content, d => content.toValue? d
  | _, _ => none

/-! ## Visiting -/

/-- Visits a field of a record; `missing` is the answer when there is none. -/
def visitField {β : Type} (Γ : Catalogue) (index : Nat) (visit : Ty → Datum → Datum × β)
    (missing : β) : Ty → Datum → Datum × β
  | .optional content, d =>
      let (after, answer) := content.visitField Γ index visit missing
        (d.contentOr (content.initial Γ))
      (.present after, answer)
  | .boxed content, d => content.visitField Γ index visit missing d
  | .record name, .record items =>
      match (Γ.fields name)[index]?, items[index]? with
      | some field, some item =>
          let (after, answer) := visit field.type item
          (.record (items.set index after), answer)
      | _, _ => (.record items, missing)
  | _, d => (d, missing)

/-- Visits what a path leads to; `missing` answers for the step at which there is no field. -/
def visitPath {β : Type} (Γ : Catalogue) (visit : Ty → Datum → Datum × β) (missing : Nat → β) :
    (hop : Nat) → (path : List Nat) → Ty → Datum → Datum × β
  | _, [], ty, d => visit ty d
  | hop, index :: rest, ty, d =>
      ty.visitField Γ index (visitPath Γ visit missing (hop + 1) rest) (missing hop) d

def visitPointee {β : Type} (Γ : Catalogue) (visit : Ty → Datum → Datum × β) (missing : β) :
    Ty → Datum → Datum × β
  | .optional content, d =>
      let (after, answer) := visit content (d.contentOr (content.initial Γ))
      (.present after, answer)
  | .boxed content, d => content.visitPointee Γ visit missing d
  | .named _ content, d => content.visitPointee Γ visit missing d
  | _, d => (d, missing)

/-- Visits what lies behind a number of optional layers; `missing` answers for the layer, counted
from the outside, that is not there. -/
def visitBehind {β : Type} (Γ : Catalogue) (visit : Ty → Datum → Datum × β) (missing : Nat → β) :
    (layer : Nat) → (layers : Nat) → Ty → Datum → Datum × β
  | _, 0, ty, d => visit ty d
  | layer, layers + 1, ty, d =>
      ty.visitPointee Γ (visitBehind Γ visit missing (layer + 1) layers) (missing layer) d

/-- Writes to what a path leads to, making the optional layers on the way. -/
def writeAt (Γ : Catalogue) (path : List Nat) (write : Ty → Datum → Written RowError) (ty : Ty)
    (d : Datum) : Written RowError :=
  visitPath Γ write (fun hop => some (.conversion (.brokenPath path hop))) 0 path ty d

/-- Opens a path for writing: the value with the layers on the way made, and the type of what the
path leads to. -/
def openPath (Γ : Catalogue) (path : List Nat) (ty : Ty) (d : Datum) :
    Datum × Except RowError Ty :=
  visitPath Γ (fun target content => (content, .ok target))
    (fun hop => .error (.conversion (.brokenPath path hop))) 0 path ty d

def openField (Γ : Catalogue) (index : Nat) (ty : Ty) (d : Datum) : Datum × Option Ty :=
  ty.visitField Γ index (fun target content => (content, some target)) none d

def openPointee (Γ : Catalogue) (ty : Ty) (d : Datum) : Datum × Option Ty :=
  ty.visitPointee Γ (fun target content => (content, some target)) none d

end SqlMarshal.Ty
