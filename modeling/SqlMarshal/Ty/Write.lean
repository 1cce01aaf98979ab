import SqlMarshal.Decimal.Power
import SqlMarshal.Text.Utf8
import SqlMarshal.Ty.Datum
import SqlMarshal.Ty.Info
import SqlMarshal.Value.Convert
import SqlMarshal.Value.Document

/-! # Writing values

A value is written in two ways. It is assigned a scalar, which it narrows to its own width; a number
that does not fit is refused and never cut. Or it stores a driver value, converting it as well as it
can. An optional value makes its content when something is written into it and forgets it when NULL
is stored. A write that is refused leaves behind what was made on the way.
-/

namespace SqlMarshal

namespace Width

def fitsSigned (width : Width) (n : Int) : Bool :=
  decide (-(twoTo (width.bits - 1) : Int) ≤ n ∧ n < twoTo (width.bits - 1))

/-- Whether an unsigned whole number of the width can hold a number. -/
def fitsUnsigned (width : Width) (n : Int) : Bool :=
  decide (0 ≤ n ∧ n < twoTo width.bits)

end Width

/-- The whole number that a scalar is. -/
def Scalar.whole? : Scalar → Option Int
  | .int n => some n.toInt
  | .uint n => some n.toNat
  | _ => none

/-- What a write leaves: the value after it, and the error if it was refused. -/
abbrev Written (ε : Type) := Datum × Option ε

def Written.inside {ε : Type} (content : Written ε) : Written ε :=
  (.present content.1, content.2)

/-- A refused write that leaves the value as it was. -/
def refuseWrite {ε : Type} (d : Datum) (error : ε) : Written ε :=
  (d, some error)

def acceptWrite {ε : Type} (d : Datum) : Written ε :=
  (d, none)

namespace Ty

/-- Narrows a scalar to a whole number of a range. -/
def assignWhole (name : String) (fits : Int → Bool) (d : Datum) (s : Scalar) : Written Fault :=
  match s.whole? with
  | some n => if fits n then acceptWrite (.whole n) else refuseWrite d (.overflow (.whole n) name)
  | none => refuseWrite d (.mismatch s.kindName name)

def assign (Γ : Catalogue) : Ty → Datum → Scalar → Written Fault
  | .bool, d, s =>
      match s with
      | .bool b => acceptWrite (.bool b)
      | s => refuseWrite d (.mismatch s.kindName "bool")
  | .int width, d, s => assignWhole width.signedName width.fitsSigned d s
  | .uint width, d, s => assignWhole width.unsignedName width.fitsUnsigned d s
  | .single, d, s =>
      match s with
      | .float x =>
          if x.exceedsSingle then refuseWrite d (.overflow (.float x) "f32")
          else acceptWrite (.float x.toSingle)
      | s => refuseWrite d (.mismatch s.kindName "f32")
  | .double, d, s =>
      match s with
      | .float x => acceptWrite (.float x)
      | s => refuseWrite d (.mismatch s.kindName "f64")
  | .text, d, s =>
      match s with
      | .text spelled => acceptWrite (.text spelled)
      | .bytes b => acceptWrite (.text (Utf8.decodeReplacing b))
      | s => refuseWrite d (.mismatch s.kindName Γ.names.text)
  | .optional content, d, s =>
      (content.assign Γ (d.contentOr (content.initial Γ)) s).inside
  | .boxed content, d, s => content.assign Γ d s
  | .sequence item, d, s =>
      match s with
      | .bytes b =>
          if item = .uint .w8 then acceptWrite (.bytes b)
          else refuseWrite d (.mismatch "bytes" ((Ty.sequence item).name Γ))
      | .text spelled =>
          if item = .uint .w8 then acceptWrite (.bytes (Utf8.encode spelled))
          else refuseWrite d (.mismatch "bytes" ((Ty.sequence item).name Γ))
      | s => refuseWrite d (.mismatch s.kindName ((Ty.sequence item).name Γ))
  | .named _ content, d, s => content.assign Γ d s
  | ty, d, s => refuseWrite d (.mismatch s.kindName (ty.name Γ))

/-- Assigns what a driver value was converted to; NULL is refused. -/
def assignConverted (Γ : Catalogue) (ty : Ty) (d : Datum)
    (converted : Except Fault (Option Scalar)) : Written RowError :=
  match converted with
  | .error fault => refuseWrite d (.conversion fault)
  | .ok none => refuseWrite d (.conversion (.nullInto (ty.name Γ)))
  | .ok (some s) => let (after, fault) := ty.assign Γ d s; (after, fault.map .conversion)

/-- Stores a driver value in a column that holds a document. NULL leaves the document as it is. -/
def storeDocument (schema : Schema) (d : Datum) (v : Value) : Written RowError :=
  let decoded (spelled : Option String) : Written RowError :=
    match spelled.bind schema.read? with
    | some found => acceptWrite (.document found)
    | none => refuseWrite d (.conversion .malformedDocument)
  match v with
  | .null => acceptWrite d
  | .text s => decoded (some s)
  | .bytes b => decoded (Utf8.decode? b)
  | v => refuseWrite d (.conversion (.unsupported v.kindName "json"))

def storeDecoded (decoder : Decoder) (d : Datum) (v : Value) : Written RowError :=
  match d with
  | .value held => let (after, error) := decoder.decode held v; (.value after, error)
  | d => acceptWrite d

def store (Γ : Catalogue) : Ty → Datum → Value → Written RowError
  | .bool, d, v => assignConverted Γ .bool d (v.toBool.map (·.map .bool))
  | .int width, d, v => assignConverted Γ (.int width) d (v.toInt64.map (·.map .int))
  | .uint width, d, v => assignConverted Γ (.uint width) d (v.toUInt64.map (·.map .uint))
  | .single, d, v => assignConverted Γ .single d (v.toBinary64.map (·.map .float))
  | .double, d, v => assignConverted Γ .double d (v.toBinary64.map (·.map .float))
  | .text, _, v => acceptWrite (.text (v.toText?.getD ""))
  | .timestamp, d, v =>
      match v.toTimestamp with
      | .error fault => refuseWrite d (.conversion fault)
      | .ok none => refuseWrite d (.conversion (.nullInto "timestamp"))
      | .ok (some t) => acceptWrite (.timestamp t)
  | .rawBytes, _, v => acceptWrite (.bytes v.rawBytes)
  | .value, _, v => acceptWrite (.value v)
  | .document schema, d, v => storeDocument schema d v
  | .custom name, d, v => storeDecoded (Γ.decoder name) d v
  | .optional content, d, v =>
      match v with
      | .null => acceptWrite .absent
      | v => (content.store Γ (d.contentOr (content.initial Γ)) v).inside
  | .boxed content, d, v => content.store Γ d v
  | .sequence item, d, v =>
      if item = .uint .w8 then acceptWrite (.bytes v.rawBytes)
      else refuseWrite d (.conversion (.unsupported v.kindName ((Ty.sequence item).name Γ)))
  | .named _ content, d, v => content.store Γ d v
  | ty, d, v => refuseWrite d (.conversion (.unsupported v.kindName (ty.name Γ)))

end Ty

end SqlMarshal
