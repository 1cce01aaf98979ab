import SqlMarshal.Binary64.Whole
import SqlMarshal.Value.Fault
import SqlMarshal.Text.Utf8

/-! # Conversions of driver values

A value is read as another kind where it has an obvious form of that kind: text that spells a number,
bytes that are text, numbers that are equal to whole numbers. Nothing is rounded to a whole number,
wrapped or cut. NULL is read as `none` of every kind.
-/

namespace SqlMarshal.Value

/-- The text that a value spells: text itself, or bytes that are well-formed text. -/
def spelling? : Value → Option String
  | .text s => some s
  | .bytes b => Utf8.decode? b
  | _ => none

def refuse {α : Type} (v : Value) (target : String) : Except Fault (Option α) :=
  .error (.unsupported v.kindName target)

/-- Reads the text that a value spells, blanks around it left out. -/
def readSpelling {α : Type} (v : Value) (target : String) (read : List Char → Option α) :
    Except Fault (Option α) :=
  match v.spelling?.bind fun s => read (trimBlanks s.toList) with
  | some found => .ok (some found)
  | none => v.refuse target

def signedWord? (n : Int) : Option Int64 :=
  if Int64.minValue.toInt ≤ n ∧ n ≤ Int64.maxValue.toInt then some (Int64.ofInt n) else none

def unsignedWord? (n : Int) : Option UInt64 :=
  if 0 ≤ n ∧ n < UInt64.size then some (UInt64.ofNat n.toNat) else none

def toInt64 (v : Value) : Except Fault (Option Int64) :=
  match v with
  | .null => .ok none
  | .int n => .ok (some n)
  | .uint n =>
      match signedWord? n.toNat with
      | some word => .ok (some word)
      | none => .error (.overflow (.whole n.toNat) "i64")
  | .float x =>
      if x.fract.eq (.zero false) && Binary64.le (.ofInt Int64.minValue.toInt) x
          && x.lt (.ofInt Int64.maxValue.toInt) then
        .ok (some x.toInt64)
      else
        v.refuse "i64"
  | _ => v.readSpelling "i64" fun text => (Decimal.readSigned? text).bind signedWord?

def toUInt64 (v : Value) : Except Fault (Option UInt64) :=
  match v with
  | .null => .ok none
  | .uint n => .ok (some n)
  | .int n =>
      match unsignedWord? n.toInt with
      | some word => .ok (some word)
      | none => .error (.overflow (.whole n.toInt) "u64")
  | .float x =>
      if x.fract.eq (.zero false) && Binary64.le (.zero false) x
          && x.lt (.ofInt (UInt64.size - 1)) then
        .ok (some x.toUInt64)
      else
        v.refuse "u64"
  | _ =>
      v.readSpelling "u64" fun text =>
        (Decimal.readUnsigned? text).bind fun n => unsignedWord? n

/-- A value as a floating point number; whole numbers are rounded to the nearest one. -/
def toBinary64 (v : Value) : Except Fault (Option Binary64) :=
  match v with
  | .null => .ok none
  | .float x => .ok (some x)
  | .int n => .ok (some (.ofInt n.toInt))
  | .uint n => .ok (some (.ofInt n.toNat))
  | _ => v.readSpelling "f64" Binary64.read?

def readBool? (text : String) : Option Bool :=
  if text ∈ ["1", "t", "T", "TRUE", "true", "True"] then some true
  else if text ∈ ["0", "f", "F", "FALSE", "false", "False"] then some false
  else none

/-- A value as a truth value; of the whole numbers only 0 and 1 are. -/
def toBool (v : Value) : Except Fault (Option Bool) :=
  let found := match v with
    | .bool b => some b
    | .int n => if n = 0 then some false else if n = 1 then some true else none
    | .uint n => if n = 0 then some false else if n = 1 then some true else none
    | v => v.spelling?.bind readBool?
  match v, found with
  | .null, _ => .ok none
  | _, some b => .ok (some b)
  | v, none => v.refuse "bool"

/-- The text form of a value; NULL alone has none. -/
def toText? : Value → Option String
  | .null => none
  | .bool b => some (if b then "true" else "false")
  | .int n => some (Decimal.text n.toInt)
  | .uint n => some (Decimal.text n.toNat)
  | .float x => some (x.text .plain)
  | .text s => some s
  | .bytes b => some (Utf8.decodeReplacing b)
  | .timestamp t => some t.text

/-- The bytes of a value: its own, or those of its text form. -/
def toBytes? : Value → Option (List UInt8)
  | .bytes b => some b
  | v => v.toText?.map Utf8.encode

/-- The bytes that a column of raw bytes takes from a value: NULL leaves none. -/
def rawBytes (v : Value) : List UInt8 :=
  v.toBytes?.getD []

def toTimestamp (v : Value) : Except Fault (Option Timestamp) :=
  match v with
  | .null => .ok none
  | .timestamp t => .ok (some t)
  | .text _ | .bytes _ =>
      match (v.toText?.bind Timestamp.read?) with
      | some t => .ok (some t)
      | none => v.refuse "timestamp"
  | _ => v.refuse "timestamp"

end SqlMarshal.Value

namespace SqlMarshal.Staged

/-- Stages a value: widens it to the family of the stage. A value that has no form of the family
leaves the stage as it was. -/
def fill (family : Family) (v : Value) : Except Fault Staged :=
  match family with
  | .bytes => .ok (.bytes v.toBytes?)
  | .int => v.toInt64.map .int
  | .uint => v.toUInt64.map .uint
  | .float => v.toBinary64.map .float
  | .text => .ok (.text v.toText?)

end SqlMarshal.Staged
