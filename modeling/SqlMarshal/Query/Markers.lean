import SqlMarshal.Query.Dialect
import SqlMarshal.Query.Pieces

/-! # Placeholders of a query

A bare question mark holds the place of a positional argument. Written for a dialect, the question
marks of a query become its markers, numbered from left to right, and everything else stays.
-/

namespace SqlMarshal

/-- The pieces of a query written for a dialect, the next placeholder having a number. -/
def writeMarkers (dialect : Dialect) : (number : Nat) → List Piece → List Char
  | _, [] => []
  | number, .bare '?' :: rest => dialect.marker number ++ writeMarkers dialect (number + 1) rest
  | number, piece :: rest => piece.text ++ writeMarkers dialect number rest

/-- A text with its placeholders written for a dialect. -/
def markText (dialect : Dialect) (text : List Char) : Except QueryError (List Char) :=
  (piecesOf text).map (writeMarkers dialect 1)

def markPlaceholders (query : String) (dialect : Dialect) : Except QueryError String :=
  (markText dialect query.toList).map String.ofList

end SqlMarshal
