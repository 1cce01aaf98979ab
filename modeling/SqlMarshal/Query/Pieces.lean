import SqlMarshal.Query.Region
import SqlMarshal.Text.Utf8

/-! # The pieces of a query

From left to right a query falls into regions and single bare characters. Everything that is done
with a query is done with its pieces: its named parameters and its placeholders consist of bare
characters, and the pieces put together again are the query.
-/

namespace SqlMarshal

/-- A piece of a query. -/
inductive Piece where
  /-- A part that is not searched. -/
  | region (text : List Char)
  /-- A character outside of regions. -/
  | bare (c : Char)
  deriving DecidableEq, Repr

def Piece.text : Piece → List Char
  | .region text => text
  | .bare c => [c]

def piecesText (pieces : List Piece) : List Char :=
  pieces.flatMap Piece.text

/-- The pieces of a text that begins at an offset, up to the first region that has no end, and the
error about that region if there is one. -/
def splitFrom (offset : Nat) (text : List Char) : List Piece × Option QueryError :=
  match text with
  | [] => ([], none)
  | c :: rest =>
      match _h : Region.cut? (c :: rest) with
      | .error region => ([], some (.unclosed region offset))
      | .ok none =>
          let (others, error) := splitFrom (offset + c.utf8Size) rest
          (.bare c :: others, error)
      | .ok (some cut) =>
          let (others, error) := splitFrom (offset + Utf8.size cut.1) cut.2
          (.region cut.1 :: others, error)
termination_by text.length
decreasing_by
  · simp
  · exact Region.length_rest_lt _h

/-- The pieces of a text, if every region in it has an end. -/
def piecesOf (text : List Char) : Except QueryError (List Piece) :=
  match splitFrom 0 text with
  | (found, none) => .ok found
  | (_, some error) => .error error

/-- The regions among pieces with the offsets where they begin and end, the first piece beginning at
an offset. -/
def regionsFrom : (offset : Nat) → List Piece → List (Nat × Nat × List Char)
  | _, [] => []
  | offset, .region text :: rest =>
      (offset, offset + Utf8.size text, text) :: regionsFrom (offset + Utf8.size text) rest
  | offset, .bare c :: rest => regionsFrom (offset + c.utf8Size) rest

end SqlMarshal
