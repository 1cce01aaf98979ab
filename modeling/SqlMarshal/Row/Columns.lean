import SqlMarshal.Text.Lowercase
import SqlMarshal.Text.Utf8

/-! # Column names

Columns are matched with fields by name, without regard to the case of ASCII letters and to one pair
of quotes around the label. A result set is known by the normal forms of its labels in order, and by
a hash of them.
-/

namespace SqlMarshal

/-- The quote that closes what a character opens, if it opens a quoted label. -/
def closingQuote? : Char → Option Char
  | '\x22' => some '\x22'
  | '\x60' => some '\x60'
  | '[' => some ']'
  | _ => none

/-- A label without one matching pair of quotes around it. -/
def unquoteLabel : List Char → List Char
  | [] => []
  | first :: rest =>
      if rest ≠ [] ∧ closingQuote? first = rest.getLast? then rest.dropLast else first :: rest

def normalizeLabel (label : String) : String :=
  lowerAscii (String.ofList (unquoteLabel label.toList))

/-- One step of the hash: a byte is mixed in and the result multiplied by a prime. -/
def hashByte (hash : UInt64) (byte : UInt8) : UInt64 :=
  (hash ^^^ byte.toUInt64) * 0x100000001b3

/-- The hash of some names, each one closed by a NUL byte. -/
def hashNames (names : List String) : UInt64 :=
  (names.flatMap fun name => Utf8.encode name ++ [0]).foldl hashByte 0xcbf29ce484222325

/-- The columns of a result set: the normal forms of their labels, in order. -/
structure Columns where
  names : List String
  deriving DecidableEq, Repr

namespace Columns

def ofLabels (labels : List String) : Columns :=
  ⟨labels.map normalizeLabel⟩

def hash (columns : Columns) : UInt64 :=
  hashNames columns.names

def size (columns : Columns) : Nat :=
  columns.names.length

end Columns

end SqlMarshal
