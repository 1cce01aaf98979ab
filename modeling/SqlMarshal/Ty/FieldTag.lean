/-! # Tags of fields

A field of a record may carry a tag that says how it binds: a name of its own, the word `inline` for a
record whose fields are taken into the surrounding one, or a single dash for a field that does not
take part. The parts of a tag are separated by commas, and the first part that is neither empty nor
the word `inline` is the name.
-/

namespace SqlMarshal

/-- The parts of a text between its commas; there is always at least one. -/
def splitCommas : List Char → List (List Char)
  | [] => [[]]
  | c :: rest =>
      if c = ',' then [] :: splitCommas rest
      else match splitCommas rest with
        | part :: parts => (c :: part) :: parts
        | [] => [[c]]

/-- What the tag of a field says. -/
structure FieldTag where
  /-- The name given by the tag; empty when there is none. -/
  name : String
  /-- The fields of the record belong to the surrounding record. -/
  inlined : Bool
  /-- The field does not take part. -/
  omitted : Bool
  deriving DecidableEq, Repr

namespace FieldTag

def parse (tag : String) : FieldTag :=
  if tag = "-" then
    ⟨"", false, true⟩
  else
    let parts := (splitCommas tag.toList).map String.ofList
    { name := (parts.find? fun part => part != "" && part != "inline").getD ""
      inlined := parts.contains "inline"
      omitted := false }

/-- The name given by the tag, or else the declared one. -/
def nameOr (tag : FieldTag) (declared : String) : String :=
  if tag.name = "" then declared else tag.name

end FieldTag

end SqlMarshal
