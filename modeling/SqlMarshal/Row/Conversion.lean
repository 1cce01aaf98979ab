import SqlMarshal.Ty.Access

/-! # Conversions through a stage

A column is either stored into its field at once, or staged and converted when the whole row has been
read. Numbers and texts are staged, in a family wider than the field, and assigned to the field from
there. Everything else stores driver values itself, and so does what has a decoder of its own.
-/

namespace SqlMarshal

/-- How a staged value is assigned. -/
inductive ConversionRule where
  /-- To plain text, from bytes. -/
  | textFromBytes
  /-- To a type of its own that is text, from text. -/
  | textFromText
  | fromInt
  | fromUint
  | fromFloat
  deriving DecidableEq, Repr

def ConversionRule.family : ConversionRule → Family
  | .textFromBytes => .bytes
  | .textFromText => .text
  | .fromInt => .int
  | .fromUint => .uint
  | .fromFloat => .float

/-- A conversion of a staged value into a field: by a rule, behind a number of optional layers. -/
structure Conversion where
  rule : ConversionRule
  layers : Nat
  deriving DecidableEq, Repr

/-- How a value comes into a field. -/
inductive Strategy where
  /-- The field stores the driver value itself. -/
  | direct
  | staged (conversion : Conversion)
  deriving DecidableEq, Repr

/-- The rule by which values of a base type are converted, unless they are stored directly. -/
def TypeInfo.rule? (info : TypeInfo) : Option ConversionRule :=
  if info.decodes then none
  else match info.kind with
    | .text => some (if info.named then .textFromText else .textFromBytes)
    | .int _ => some .fromInt
    | .uint _ => some .fromUint
    | .single | .double => some .fromFloat
    | _ => none

/-- How a value comes into a field of a type. -/
def TypeInfo.strategy (Γ : Catalogue) (info : TypeInfo) : Strategy :=
  let (base, layers) := info.peel Γ
  match base.rule? with
  | some rule => .staged ⟨rule, layers⟩
  | none => .direct

/-- The scalar that a rule assigns for a staged value. NULL is the empty text among texts, and is
refused among numbers. -/
def ConversionRule.scalar (rule : ConversionRule) (staged : Staged) (target : String) :
    Except Fault Scalar :=
  if staged.family = rule.family then
    match staged.scalar?, rule with
    | some s, _ => .ok s
    | none, .textFromBytes => .ok (.text "")
    | none, .textFromText => .ok (.text "")
    | none, _ => .error (.nullInto target)
  else
    .error (.wrongFamily staged target)

def ConversionRule.assign (Γ : Catalogue) (rule : ConversionRule) (staged : Staged) (ty : Ty)
    (d : Datum) : Written Fault :=
  match rule.scalar staged (ty.name Γ) with
  | .ok s => ty.assign Γ d s
  | .error fault => refuseWrite d fault

/-- Converts a staged value into a field. NULL behind an optional layer leaves the field as it is;
otherwise all layers are made on the way. -/
def Conversion.apply (Γ : Catalogue) (conversion : Conversion) (staged : Staged) (ty : Ty)
    (d : Datum) : Written Fault :=
  if staged.isNull ∧ 0 < conversion.layers then
    acceptWrite d
  else
    Ty.visitBehind Γ (conversion.rule.assign Γ staged)
      (fun layer => some (.missingLayer layer conversion.layers)) 0 conversion.layers ty d

end SqlMarshal
