import SqlMarshal.Document.Node
import SqlMarshal.Document.Text
import SqlMarshal.Timestamp.Text
import SqlMarshal.Value.Basic

/-! # Driver values as JSON

A value is an object with one entry, whose key names the kind and whose content is the value. NULL is
the bare name of its kind; it may also be written as an object. Bytes are lists of numbers, and
instants are text.
-/

namespace SqlMarshal.Value

def toDocument : Value → Document
  | .null => .text "Null"
  | .bool b => .object [("Bool", .bool b)]
  | .int n => .object [("Int", .int n.toInt)]
  | .uint n => .object [("Uint", .int n.toNat)]
  | .float x => .object [("Float", .float x)]
  | .text s => .object [("Text", .text s)]
  | .bytes b => .object [("Bytes", .list (b.map fun byte => .int byte.toNat))]
  | .timestamp t => .object [("Timestamp", .text t.zuluText)]

def byte? : Document → Option UInt8
  | .int n => if 0 ≤ n ∧ n < 256 then some (UInt8.ofNat n.toNat) else none
  | _ => none

def ofContent? (kind : String) (content : Document) : Option Value :=
  match kind, content with
  | "Null", .null => some .null
  | "Bool", .bool b => some (.bool b)
  | "Int", .int n => 
      if Int64.minValue.toInt ≤ n ∧ n ≤ Int64.maxValue.toInt then some (.int (Int64.ofInt n))
      else none
  | "Uint", .int n => if 0 ≤ n ∧ n < UInt64.size then some (.uint (UInt64.ofNat n.toNat)) else none
  | "Float", .int n => some (.float (.ofInt n))
  | "Float", .float x => some (.float x)
  | "Text", .text s => some (.text s)
  | "Bytes", .list items => (items.mapM byte?).map .bytes
  | "Timestamp", .text s => (Timestamp.readLenient? s).map .timestamp
  | _, _ => none

def readJson? (text : String) : Option Value := do
  match ← Document.Node.read? text with
  | .text points => if Document.Node.string? points = some "Null" then some .null else none
  | .object [(points, node)] =>
      let kind ← Document.Node.string? points
      let content ← node.document? Document.Node.depthLimit
      ofContent? kind content
  | _ => none

def writeJson (v : Value) : String :=
  v.toDocument.write

end SqlMarshal.Value
