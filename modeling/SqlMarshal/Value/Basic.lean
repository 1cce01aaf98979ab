import SqlMarshal.Binary64.Basic
import SqlMarshal.Timestamp.Basic

/-! # Driver values

A driver hands over one value per column and takes one value per argument of a query. Whole numbers
are words of 64 bits, with or without a sign.

A value on its way into a typed destination may be staged first: widened to the family of the
destination, with NULL kept apart. Out of a stage it is written as a plain scalar.
-/

namespace SqlMarshal

/-- A value as a database driver delivers or accepts it. -/
inductive Value where
  | null
  | bool (b : Bool)
  | int (n : Int64)
  | uint (n : UInt64)
  | float (x : Binary64)
  | text (s : String)
  | bytes (b : List UInt8)
  | timestamp (t : Timestamp)
  deriving DecidableEq, Repr

/-- What error messages call the kind of a value. -/
def Value.kindName : Value → String
  | .null => "NULL"
  | .bool _ => "bool"
  | .int _ => "int64"
  | .uint _ => "uint64"
  | .float _ => "float64"
  | .text _ => "text"
  | .bytes _ => "bytes"
  | .timestamp _ => "timestamp"

/-- A value to be assigned to a destination that narrows it to its own width. -/
inductive Scalar where
  | bool (b : Bool)
  | int (n : Int64)
  | uint (n : UInt64)
  | float (x : Binary64)
  | text (s : String)
  | bytes (b : List UInt8)
  deriving DecidableEq, Repr

/-- What error messages call the kind of a scalar. -/
def Scalar.kindName : Scalar → String
  | .bool _ => "bool"
  | .int _ => "i64"
  | .uint _ => "u64"
  | .float _ => "f64"
  | .text _ => "text"
  | .bytes _ => "bytes"

/-- The families of staged values. -/
inductive Family where
  | bytes | int | uint | float | text
  deriving DecidableEq, Repr

/-- A value widened to its family; `none` is NULL. -/
inductive Staged where
  | bytes (content : Option (List UInt8))
  | int (content : Option Int64)
  | uint (content : Option UInt64)
  | float (content : Option Binary64)
  | text (content : Option String)
  deriving DecidableEq, Repr

namespace Staged

def family : Staged → Family
  | .bytes _ => .bytes
  | .int _ => .int
  | .uint _ => .uint
  | .float _ => .float
  | .text _ => .text

def empty : Family → Staged
  | .bytes => .bytes none
  | .int => .int none
  | .uint => .uint none
  | .float => .float none
  | .text => .text none

def scalar? : Staged → Option Scalar
  | .bytes content => content.map .bytes
  | .int content => content.map .int
  | .uint content => content.map .uint
  | .float content => content.map .float
  | .text content => content.map .text

def isNull (staged : Staged) : Bool :=
  staged.scalar?.isNone

end Staged

end SqlMarshal
