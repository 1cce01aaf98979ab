import SqlMarshal.Binary64.Basic

/-! # JSON documents

A document is a JSON value. Whole numbers are kept exactly as long as they fit 64 bits, signed or
unsigned; all other numbers are floating point. In a document that was read the entries of an object
are sorted by their keys, and a key occurs once.
-/

namespace SqlMarshal

/-- A JSON value. -/
inductive Document where
  | null
  | bool (b : Bool)
  | int (n : Int)
  | float (x : Binary64)
  | text (s : String)
  | list (items : List Document)
  /-- Entries in the order in which they are written. -/
  | object (entries : List (String × Document))
  deriving Repr

/-- Puts an entry at its place among entries sorted by key, replacing one of the same key. -/
def insertEntry {α : Type} (key : String) (item : α) : List (String × α) → List (String × α)
  | [] => [(key, item)]
  | entry :: rest =>
      if key < entry.1 then (key, item) :: entry :: rest
      else if key = entry.1 then (key, item) :: rest
      else entry :: insertEntry key item rest

/-- Entries sorted by key; of entries with one key the last one counts. -/
def sortEntries {α : Type} (entries : List (String × α)) : List (String × α) :=
  entries.foldl (fun sorted entry => insertEntry entry.1 entry.2 sorted) []

end SqlMarshal
