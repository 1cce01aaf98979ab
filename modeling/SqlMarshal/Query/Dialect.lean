import SqlMarshal.Decimal.Integer
import SqlMarshal.Text.Lowercase

/-! # Dialects

Databases mark the positional arguments of a query in different ways. The dialect of a database is
known from the name of its driver.
-/

namespace SqlMarshal

/-- How positional arguments are marked. -/
inductive Dialect where
  /-- `?` for every argument. -/
  | question
  /-- `$1`, `$2`, … -/
  | dollar
  /-- `@p1`, `@p2`, … -/
  | atP
  /-- `:1`, `:2`, … -/
  | colon
  deriving DecidableEq, Repr

namespace Dialect

/-- The dialect of a driver, by its name in any case; an unknown one marks with `?`. -/
def ofDriver (driver : String) : Dialect :=
  let name := lowerAscii driver
  if name ∈ ["pgx", "postgres", "postgresql", "lib/pq", "pg"] then .dollar
  else if name ∈ ["sqlserver", "mssql"] then .atP
  else if name ∈ ["godror", "oracle", "goracle"] then .colon
  else .question

def marker (dialect : Dialect) (number : Nat) : List Char :=
  match dialect with
  | .question => ['?']
  | .dollar => '$' :: Decimal.writeNat number
  | .atP => '@' :: 'p' :: Decimal.writeNat number
  | .colon => ':' :: Decimal.writeNat number

def name : Dialect → String
  | .question => "question"
  | .dollar => "dollar"
  | .atP => "at_p"
  | .colon => "colon"

def ofName? (name : String) : Option Dialect :=
  [question, dollar, atP, colon].find? (·.name == name)

end Dialect

end SqlMarshal
