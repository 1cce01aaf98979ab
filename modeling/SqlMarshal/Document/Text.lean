import SqlMarshal.Binary64.Text
import SqlMarshal.Document.Basic

/-! # Writing JSON text

Documents are written without blanks. Inside a quoted text the quote, the backslash and the control
characters are escaped, and everything else stands as it is.
-/

namespace SqlMarshal.Document

def writeChar (c : Char) : List Char :=
  match c with
  | '\x22' => ['\\', '\x22']
  | '\\' => ['\\', '\\']
  | '\x08' => ['\\', 'b']
  | '\x0c' => ['\\', 'f']
  | '\n' => ['\\', 'n']
  | '\r' => ['\\', 'r']
  | '\t' => ['\\', 't']
  | c =>
      if c.toNat < 32 then
        ['\\', 'u', '0', '0', Nat.digitChar (c.toNat / 16), Nat.digitChar (c.toNat % 16)]
      else
        [c]

def writeText (s : String) : String :=
  String.ofList ('\x22' :: s.toList.flatMap writeChar ++ ['\x22'])

/-- A floating point number; what is not finite has no form in JSON and becomes null. -/
def writeFloat (x : Binary64) : String :=
  if x.isFinite then x.text .document else "null"

mutual

def write : Document → String
  | .null => "null"
  | .bool b => if b then "true" else "false"
  | .int n => Decimal.text n
  | .float x => writeFloat x
  | .text s => writeText s
  | .list items => "[" ++ ",".intercalate (writeItems items) ++ "]"
  | .object entries => "\x7b" ++ ",".intercalate (writeEntries entries) ++ "\x7d"

def writeItems : List Document → List String
  | [] => []
  | item :: rest => item.write :: writeItems rest

def writeEntries : List (String × Document) → List String
  | [] => []
  | (key, item) :: rest => (writeText key ++ ":" ++ item.write) :: writeEntries rest

end

end SqlMarshal.Document
