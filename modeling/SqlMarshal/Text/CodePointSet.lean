/-! # Sets of code points

A set of code points is stored as the increasing list of the points where membership changes, so a
property of the Unicode character database is one list of numbers. The points of the set are those
with an odd number of edges at or below them.
-/

namespace SqlMarshal

/-- A set of code points, given by the increasing points at which membership changes. -/
structure CodePointSet where
  edges : List Nat
  deriving DecidableEq, Repr

namespace CodePointSet

/-- A code point belongs when an odd number of edges lie at or below it. -/
def contains (s : CodePointSet) (c : Char) : Bool :=
  (s.edges.takeWhile (fun edge => decide (edge ≤ c.toNat))).length % 2 == 1

end CodePointSet

end SqlMarshal
