import SqlMarshal.Bind.Arguments
import SqlMarshal.Query.Markers
import SqlMarshal.Query.Names

/-! # Binding

A query and its parameters become a statement: the query with the markers of a dialect, and the
arguments in the order of the markers. A single parameter that is a record or a map is bound by name:
every named parameter of the query becomes a placeholder, or as many of them as a sequence has items,
and the word `NULL` for a sequence without items. Otherwise the parameters are bound in the order
given.
-/

namespace SqlMarshal

/-- Whether a parameter is bound by name: it is a record or a map, whatever it holds. -/
def Param.isBindable (Γ : Catalogue) (param : Param) : Bool :=
  match ((param.info Γ).peel Γ).1.kind with
  | .record _ | .map => true
  | _ => false

/-- A query for a dialect with its arguments. -/
structure Statement where
  query : String
  arguments : List Param

/-- What takes the place of a named parameter: text with placeholders, and their arguments. -/
structure Expansion where
  text : List Char
  arguments : List Param

namespace Expansion

/-- Placeholders for some items, separated by commas. -/
def placeholders : List Param → List Char
  | [] => []
  | [_] => ['?']
  | _ :: rest => '?' :: ',' :: placeholders rest

def ofParam (param : Param) : Expansion :=
  match param.elements? with
  | some [] => ⟨['N', 'U', 'L', 'L'], []⟩
  | some items => ⟨placeholders items, items⟩
  | none => ⟨['?'], [param]⟩

end Expansion

/-- A query with every named parameter in its segments replaced; an error names the first one that has
no argument. -/
def expandSegments (arguments : Arguments) : List Segment → Except QueryError Expansion
  | [] => .ok ⟨[], []⟩
  | .copy text :: rest => do
      let others ← expandSegments arguments rest
      return ⟨text ++ others.text, others.arguments⟩
  | .parameter name :: rest =>
      match arguments.get? (String.ofList name) with
      | none => .error (.missingValue (String.ofList name))
      | some param => do
          let own := Expansion.ofParam param
          let others ← expandSegments arguments rest
          return ⟨own.text ++ others.text, own.arguments ++ others.arguments⟩

def Segment.isParameter : Segment → Bool
  | .parameter _ => true
  | .copy _ => false

namespace Statement

/-- Binds a parameter by name. A query that names no parameter is left as it is. -/
def bindNamed (Γ : Catalogue) (query : String) (dialect : Dialect) (param : Param) :
    Except QueryError Statement := do
  let found := segments (← piecesOf query.toList)
  if found.any Segment.isParameter then
    let expansion ← expandSegments (← Arguments.build Γ param) found
    let text ← markText dialect expansion.text
    return ⟨String.ofList text, expansion.arguments⟩
  else
    return ⟨query, []⟩

def bindInOrder (query : String) (dialect : Dialect) (params : List Param) :
    Except QueryError Statement :=
  (markPlaceholders query dialect).map (⟨·, params⟩)

def bind (Γ : Catalogue) (query : String) (dialect : Dialect) (params : List Param) :
    Except QueryError Statement :=
  match params with
  | [param] =>
      if param.isBindable Γ then bindNamed Γ query dialect param
      else bindInOrder query dialect params
  | params => bindInOrder query dialect params

/-- The driver values of some arguments; one that is no scalar is refused. -/
def valuesOf (Γ : Catalogue) : List Param → Except QueryError (List Value)
  | [] => .ok []
  | param :: rest =>
      match param.toValue? with
      | some v => (valuesOf Γ rest).map (v :: ·)
      | none => .error (.unsupportedArgument (param.info Γ).name)

def values (Γ : Catalogue) (statement : Statement) : Except QueryError (List Value) :=
  valuesOf Γ statement.arguments

def describe (statement : Statement) : String :=
  "Rebound \x7b query: " ++ quoted statement.query ++ ", args: "
    ++ describeList (statement.arguments.map fun param =>
      describeOption (param.toValue?.map Value.describe))
    ++ " \x7d"

end Statement

end SqlMarshal
