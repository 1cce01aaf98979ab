import SqlMarshal.Query.Pieces

/-! # Named parameters of a query

A colon and the word after it name a parameter. Two colons are a cast and name nothing, and neither
does a colon without a word. Regions are not searched. A query falls into segments: the places of its
parameters and everything between them.
-/

namespace SqlMarshal

/-- A part of a query with named parameters. -/
inductive Segment where
  /-- Text that stays. -/
  | copy (text : List Char)
  /-- A colon and a name. -/
  | parameter (name : List Char)
  deriving DecidableEq, Repr

/-- The characters of a segment. -/
def Segment.text : Segment → List Char
  | .copy text => text
  | .parameter name => ':' :: name

/-- The word of bare characters at the front of some pieces. -/
def leadingWord : List Piece → List Char
  | .bare c :: rest => if isWordChar c then c :: leadingWord rest else []
  | _ => []

def segments (found : List Piece) : List Segment :=
  match found with
  | [] => []
  | .bare ':' :: .bare ':' :: rest => .copy [':', ':'] :: segments rest
  | .bare ':' :: rest =>
      match leadingWord rest with
      | [] => .copy [':'] :: segments rest
      | c :: word => .parameter (c :: word) :: segments (rest.drop (word.length + 1))
  | piece :: rest => .copy piece.text :: segments rest
termination_by found.length

/-- A named parameter and the bytes from its colon to behind its name. -/
structure NamedParameter where
  name : String
  start : Nat
  stop : Nat
  deriving DecidableEq, Repr

/-- The parameters among segments, the first of which begins at an offset. -/
def parametersFrom : (offset : Nat) → List Segment → List NamedParameter
  | _, [] => []
  | offset, .copy text :: rest => parametersFrom (offset + Utf8.size text) rest
  | offset, .parameter name :: rest =>
      let stop := offset + Utf8.size (':' :: name)
      ⟨String.ofList name, offset, stop⟩ :: parametersFrom stop rest

/-- The named parameters of a query from left to right, repeated ones included. -/
def namedParameters (query : String) : Except QueryError (List NamedParameter) :=
  (piecesOf query.toList).map fun found => parametersFrom 0 (segments found)

end SqlMarshal
