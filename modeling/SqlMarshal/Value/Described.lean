import SqlMarshal.Binary64.Text
import SqlMarshal.Text.Quoted
import SqlMarshal.Timestamp.Text
import SqlMarshal.Value.Basic

/-! # Descriptions of values

Messages that are meant for a programmer show a value by the name of its kind and, in round brackets,
its content.
-/

namespace SqlMarshal

def describeList (items : List String) : String :=
  "[" ++ ", ".intercalate items ++ "]"

def describeOption : Option String → String
  | none => "None"
  | some content => "Some(" ++ content ++ ")"

def describeBytes (b : List UInt8) : String :=
  describeList (b.map fun byte => Decimal.text byte.toNat)

def Value.describe : Value → String
  | .null => "Null"
  | .bool b => "Bool(" ++ (if b then "true" else "false") ++ ")"
  | .int n => "Int(" ++ Decimal.text n.toInt ++ ")"
  | .uint n => "Uint(" ++ Decimal.text n.toNat ++ ")"
  | .float x => "Float(" ++ x.text .described ++ ")"
  | .text s => "Text(" ++ quoted s ++ ")"
  | .bytes b => "Bytes(" ++ describeBytes b ++ ")"
  | .timestamp t => "Timestamp(" ++ t.zuluText ++ ")"

def Staged.describe : Staged → String
  | .bytes content => "Bytes(" ++ describeOption (content.map describeBytes) ++ ")"
  | .int content => "Int(" ++ describeOption (content.map (Decimal.text ·.toInt)) ++ ")"
  | .uint content => "Uint(" ++ describeOption (content.map (Decimal.text ·.toNat)) ++ ")"
  | .float content => "Float(" ++ describeOption (content.map (·.text .described)) ++ ")"
  | .text content => "Text(" ++ describeOption (content.map quoted) ++ ")"

end SqlMarshal
