import SqlMarshal.Query.Pieces

/-! # Scanning a query by hand

A scanner stands between two characters of a query. It goes forward by characters or over a region,
never back, and tells where it stands in characters and in bytes.
-/

namespace SqlMarshal

/-- A place in a query: the characters before it, the nearest first, and those after it. -/
structure Scanner where
  before : List Char
  after : List Char
  deriving DecidableEq, Repr

namespace Scanner

def start (query : String) : Scanner :=
  ⟨[], query.toList⟩

def position (s : Scanner) : Nat :=
  s.before.length

def offset (s : Scanner) : Nat :=
  Utf8.size s.before

def atEnd (s : Scanner) : Bool :=
  s.after.isEmpty

/-- The character a number of places ahead; beyond the end of the query it is NUL. -/
def peek (s : Scanner) (ahead : Nat) : Char :=
  (s.after[ahead]?).getD '\x00'

def current (s : Scanner) : Char :=
  s.peek 0

def jump (s : Scanner) (count : Nat) : Scanner :=
  ⟨(s.after.take count).reverse ++ s.before, s.after.drop count⟩

def advance (s : Scanner) : Scanner :=
  s.jump 1

/-- Goes over the region that opens at the scanner, if one does, and tells where in bytes it begins
and ends. A quote or a comment without an end is searched to the end of the query; a dollar-quoted
text without an end leaves the scanner where it is. -/
def skip (s : Scanner) : Except QueryError (Option (Nat × Nat)) × Scanner :=
  match Region.cut? s.after with
  | .ok none => (.ok none, s)
  | .ok (some cut) =>
      let next := s.jump cut.1.length
      (.ok (some (s.offset, next.offset)), next)
  | .error (.dollar marker) => (.error (.unclosed (.dollar marker) s.offset), s)
  | .error region => (.error (.unclosed region s.offset), s.jump s.after.length)

end Scanner

end SqlMarshal
