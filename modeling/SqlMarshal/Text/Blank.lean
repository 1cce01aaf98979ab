import SqlMarshal.Text.CodePointSet

/-! # Blank characters

The blanks are the code points with the Unicode property `White_Space`. Text that spells a number or
an instant may be surrounded by them.
-/

namespace SqlMarshal

/-- The code points with the property `White_Space`. -/
def blanks : CodePointSet where
  edges := [
    9, 14, 32, 33, 133, 134, 160, 161, 5760, 5761, 8192, 8203, 8232, 8234, 8239, 8240, 8287, 8288,
    12288, 12289]

def isBlank (c : Char) : Bool :=
  blanks.contains c

/-- A text without the blanks at its two ends. -/
def trimBlanks (text : List Char) : List Char :=
  ((text.dropWhile isBlank).reverse.dropWhile isBlank).reverse

end SqlMarshal
