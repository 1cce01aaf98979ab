import SqlMarshal.Document.Node

/-! # Schemas of documents

A schema describes the documents that a column holds: any at all, or whole numbers or texts within
lists and tables. A text is read by a schema as written, so of two entries with one key both have to
be as the schema says, though only the last one is kept.
-/

namespace SqlMarshal

/-- What a document may be. -/
inductive Schema where
  /-- Any document. -/
  | any
  /-- A whole number of 64 bits with a sign. -/
  | int64
  | text
  | list (item : Schema)
  /-- An object whose entries are all of one kind. -/
  | table (item : Schema)
  deriving DecidableEq, Repr

namespace Schema

open Document (Node)

def initial : Schema → Document
  | .any => .null
  | .int64 => .int 0
  | .text => .text ""
  | .list _ => .list []
  | .table _ => .object []

def int64? : Document → Option Document
  | .int n => 
      if Int64.minValue.toInt ≤ n ∧ n ≤ Int64.maxValue.toInt then some (.int n) else none
  | _ => none

/-- The document that a node stands for, if it is as the schema says and its containers are nested no
deeper than `room`. -/
def document? : Schema → (room : Nat) → Node → Option Document
  | .any, room, node => node.document? room
  | .int64, _, .number numeral => numeral.value?.bind int64?
  | .text, _, .text points => (Document.Node.string? points).map .text
  | .list item, room + 1, .list items => (items.mapM (item.document? room)).map .list
  | .table item, room + 1, .object entries => do
      let found ← entries.mapM fun (points, node) =>
        return (← Document.Node.string? points, ← item.document? room node)
      return .object (sortEntries found)
  | _, _, _ => none

def read? (schema : Schema) (text : String) : Option Document :=
  (Document.Node.read? text).bind (schema.document? Document.Node.depthLimit)

end Schema

end SqlMarshal
