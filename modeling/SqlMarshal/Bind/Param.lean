import SqlMarshal.Ty.Access

/-! # Parameters

What is bound to a query is a value of a type, a run of values that belongs to someone else, or a map
from keys to parameters. Parameters are only read. An array expands into its items whatever they are;
bytes in a sequence or a slice are one scalar.
-/

namespace SqlMarshal

/-- The kinds of maps, which differ in the order of their entries. -/
inductive MapKind where
  /-- In the order of insertion. -/
  | ordered
  /-- In the order of the keys. -/
  | sorted
  /-- In no order that could be relied on. -/
  | hashed
  deriving DecidableEq, Repr

/-- What is bound to a query. -/
inductive Param where
  | datum (type : Ty) (d : Datum)
  /-- Items in a row, of which bytes are one scalar. -/
  | slice (item : Ty) (items : List Datum)
  /-- A fixed number of items in a row. -/
  | array (item : Ty) (items : List Datum)
  /-- Keys with parameters, in the order in which the map gives them. -/
  | map (kind : MapKind) (entries : List (String × Param))
  deriving Repr

namespace MapKind

def name (names : TypeNames) : MapKind → String
  | .ordered => names.orderedMap
  | .sorted => names.sortedMap
  | .hashed => names.hashedMap

/-- Puts an entry among those of a map: an ordered map keeps the first place of a key and takes its
last value, the other kinds are kept in the order of keys. -/
def insert {α : Type} (kind : MapKind) (key : String) (item : α) (entries : List (String × α)) :
    List (String × α) :=
  match kind with
  | .ordered =>
      if entries.any (·.1 == key) then
        entries.map fun entry => if entry.1 == key then (key, item) else entry
      else
        entries ++ [(key, item)]
  | .sorted | .hashed => insertEntry key item entries

end MapKind

namespace Param

/-- A map with entries inserted one after the other. -/
def ofEntries (kind : MapKind) (entries : List (String × Param)) : Param :=
  .map kind (entries.foldl (fun found entry => kind.insert entry.1 entry.2 found) [])

/-- The numbers of some bytes. -/
def byteItems (items : List Datum) : List UInt8 :=
  items.filterMap fun
    | .whole n => some (UInt8.ofNat n.toNat)
    | _ => none

def info (Γ : Catalogue) : Param → TypeInfo
  | .datum type _ => type.info Γ
  | .slice item _ =>
      { name := "&[" ++ item.spelledName Γ ++ "]"
        kind := if item = .uint .w8 then .bytes else .sequence item
        named := false
        decodes := false }
  | .array item items =>
      { name := "[" ++ item.spelledName Γ ++ "; " ++ Decimal.text items.length ++ "]"
        kind := .sequence item
        named := false
        decodes := false }
  | .map kind _ => ⟨kind.name Γ.names, .map, false, false⟩

/-- The driver value that a parameter is bound as, if it is a scalar. -/
def toValue? : Param → Option Value
  | .datum type d => type.toValue? d
  | .slice item items => if item = .uint .w8 then some (.bytes (byteItems items)) else none
  | .array _ _ => none
  | .map _ _ => none

def elements? : Param → Option (List Param)
  | .datum type d => (type.elements? d).map fun (item, items) => items.map (.datum item)
  | .slice item items => if item = .uint .w8 then none else some (items.map (.datum item))
  | .array item items => some (items.map (.datum item))
  | .map _ _ => none

def entries? : Param → Option (List (String × Param))
  | .map _ entries => some entries
  | _ => none

def field? (Γ : Catalogue) (index : Nat) : Param → Option Param
  | .datum type d => (type.field? Γ index d).map fun (item, content) => .datum item content
  | _ => none

def pointee? : Param → Option Param
  | .datum type d => (type.pointee? d).map fun (content, inner) => .datum content inner
  | _ => none

def fieldCount (Γ : Catalogue) (param : Param) : Nat :=
  match (param.info Γ).peel Γ with
  | (base, _) =>
      ((List.range (base.fields?.getD []).length).takeWhile fun index =>
        (param.field? Γ index).isSome).length

end Param

end SqlMarshal
