import SqlMarshal.Decimal.Integer
import SqlMarshal.Text.Quoted

/-! # Errors of queries

A query is refused when a quoted part of it or a comment has no end, or when its named parameters
cannot be bound. Positions are counted in bytes.
-/

namespace SqlMarshal

/-- What kind of region has no end. -/
inductive Unclosed where
  | literal
  | identifier (quote : Char)
  | comment
  /-- A dollar-quoted text with its opening marker. -/
  | dollar (marker : String)
  deriving DecidableEq, Repr

/-- Why a query could not be processed. -/
inductive QueryError where
  /-- The parameters are behind an optional layer that is not there. -/
  | nilParameters
  /-- An argument of a type that cannot be bound. -/
  | unsupportedArgument (typeName : String)
  | duplicateKey (key : String)
  | missingValue (name : String)
  /-- A region that opens at an offset has no end. -/
  | unclosed (region : Unclosed) (offset : Nat)
  deriving DecidableEq, Repr

def QueryError.message : QueryError → String
  | .nilParameters => "named bind: nil params"
  | .unsupportedArgument typeName =>
      "named bind: params must be a record or a text-keyed map, got " ++ typeName
  | .duplicateKey key =>
      "named bind: duplicate key " ++ quoted key ++ " from record tags/fields"
  | .missingValue name => "named bind: missing value for :" ++ name
  | .unclosed region offset =>
      let what := match region with
        | .literal => "single-quoted string"
        | .identifier quote => String.ofList [quote] ++ "-quoted identifier"
        | .comment => "block comment"
        | .dollar marker => "dollar-quoted string " ++ marker
      "unterminated " ++ what ++ " at byte " ++ Decimal.text offset

end SqlMarshal
