import SqlMarshal.Bind.Statement
import SqlMarshal.Cursor.Reader
import SqlMarshal.Document.Node
import SqlMarshal.Document.Text

/-! # Configuration

A configuration limits how deep records are taken into records and names the dialect that queries are
bound for. It is written in JSON, as an object or as a list of its parts in order; parts that are
missing have their defaults. Of other keys in an object only the form of the JSON text is checked, but
a part that is given twice is an error.
-/

namespace SqlMarshal

/-- The settings of readers and of binding. -/
structure Config where
  /-- How deep records are taken into records, a number of 64 bits. -/
  maxDepth : UInt64 := 32
  dialect : Dialect := .question
  deriving DecidableEq, Repr

/-- Why a configuration could not be read. -/
inductive ConfigError where
  /-- The file is not there or holds no text. -/
  | unreadable
  | malformed
  deriving DecidableEq, Repr

namespace Config

open Document (Node)

def forDriver (driver : String) : Config :=
  { dialect := .ofDriver driver }

/-- A depth in JSON: an unsigned whole number of 64 bits. -/
def depth? (node : Node) : Option UInt64 :=
  match node with
  | .number numeral =>
      match numeral.value? with
      | some (.int n) => if 0 ≤ n ∧ n < UInt64.size then some (UInt64.ofNat n.toNat) else none
      | _ => none
  | _ => none

/-- A dialect in JSON: its name, or an object with the name as its key and nothing as its value. -/
def dialect? (node : Node) : Option Dialect :=
  match node with
  | .text points => (Node.string? points).bind Dialect.ofName?
  | .object [(points, .null)] => (Node.string? points).bind Dialect.ofName?
  | _ => none

/-- The parts of a configuration that are given so far. -/
structure Parts where
  maxDepth : Option UInt64 := none
  dialect : Option Dialect := none
  deriving DecidableEq, Repr

/-- The configuration with some parts and the defaults of the others. -/
def Parts.config (parts : Parts) : Config :=
  { maxDepth := parts.maxDepth.getD ({} : Config).maxDepth
    dialect := parts.dialect.getD ({} : Config).dialect }

/-- Adds the entries of an object to the parts given so far. -/
def addEntries? (parts : Parts) : List (List Nat × Node) → Option Parts
  | [] => some parts
  | (points, node) :: rest => do
      let key ← Node.string? points
      if key = "max_depth" then
        if parts.maxDepth.isSome then none
        else addEntries? { parts with maxDepth := some (← depth? node) } rest
      else if key = "dialect" then
        if parts.dialect.isSome then none
        else addEntries? { parts with dialect := some (← dialect? node) } rest
      else
        addEntries? parts rest

def ofNode? : Node → Option Config
  | .object entries => (addEntries? {} entries).map Parts.config
  | .list [] => some {}
  | .list [depth] => do
      return Parts.config { maxDepth := some (← depth? depth) }
  | .list [depth, dialect] => do
      return Parts.config { maxDepth := some (← depth? depth), dialect := some (← dialect? dialect) }
  | _ => none

/-- The configuration that JSON text spells. -/
def ofJson (text : String) : Except ConfigError Config :=
  match (Node.read? text).bind ofNode? with
  | some config => .ok config
  | none => .error .malformed

def ofFile (content : Option (List UInt8)) : Except ConfigError Config :=
  match content.bind Utf8.decode? with
  | some text => ofJson text
  | none => .error .unreadable

def writeJson (config : Config) : String :=
  (Document.object [("max_depth", .int config.maxDepth.toNat),
    ("dialect", .text config.dialect.name)]).write

def reader (config : Config) : Reader :=
  { depth := config.maxDepth.toNat }

/-- Binds parameters to a query for the dialect of a configuration. -/
def bind (Γ : Catalogue) (config : Config) (query : String) (params : List Param) :
    Except QueryError Statement :=
  Statement.bind Γ query config.dialect params

end Config

end SqlMarshal
