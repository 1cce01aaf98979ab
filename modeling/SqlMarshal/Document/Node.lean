import SqlMarshal.Document.Number

/-! # The structure of JSON text

Tokens are put together to nodes by a machine that keeps the containers it is inside of on a stack.
A node is what the text says before it is judged: repeated keys are all there, in the order written,
and numerals and quoted texts are not yet values. `Node.document?` makes the judgement. A part of a
text that nobody asks for only has to be a node.
-/

namespace SqlMarshal.Document

/-- A JSON value as written. -/
inductive Node where
  | null
  | bool (b : Bool)
  | number (numeral : NumberText)
  | text (points : List Nat)
  | list (items : List Node)
  | object (entries : List (List Nat × Node))
  deriving Repr

/-- A container that is not complete: its parts so far, the last one first. -/
inductive Frame where
  | list (items : List Node)
  /-- Also holds the key whose value is being read. -/
  | object (entries : List (List Nat × Node)) (key : List Nat)

namespace Node

mutual

def openValue? (stack : List Frame) : List Token → Option Node
  | .null :: rest => closeValue? stack .null rest
  | .bool b :: rest => closeValue? stack (.bool b) rest
  | .number numeral :: rest => closeValue? stack (.number numeral) rest
  | .text points :: rest => closeValue? stack (.text points) rest
  | .listOpen :: .listClose :: rest => closeValue? stack (.list []) rest
  | .listOpen :: rest => openValue? (.list [] :: stack) rest
  | .objectOpen :: .objectClose :: rest => closeValue? stack (.object []) rest
  | .objectOpen :: .text key :: .colon :: rest => openValue? (.object [] key :: stack) rest
  | _ => none

def closeValue? (stack : List Frame) (node : Node) : List Token → Option Node
  | [] => match stack with
      | [] => some node
      | _ :: _ => none
  | .comma :: .text key :: .colon :: rest => match stack with
      | .object entries last :: outer =>
          openValue? (.object ((last, node) :: entries) key :: outer) rest
      | _ => none
  | .comma :: rest => match stack with
      | .list items :: outer => openValue? (.list (node :: items) :: outer) rest
      | _ => none
  | .listClose :: rest => match stack with
      | .list items :: outer => closeValue? outer (.list (node :: items).reverse) rest
      | _ => none
  | .objectClose :: rest => match stack with
      | .object entries last :: outer =>
          closeValue? outer (.object ((last, node) :: entries).reverse) rest
      | _ => none
  | _ => none

end

/-- The node that a text spells, if it spells one and nothing else. -/
def read? (text : String) : Option Node :=
  (tokens? text.toList).bind (openValue? [])

/-- The characters that code points spell, surrogates being paired. -/
def characters? : List Nat → Option (List Char)
  | [] => some []
  | point :: rest =>
      if 0xD800 ≤ point ∧ point < 0xDC00 then
        match rest with
        | second :: rest =>
            if 0xDC00 ≤ second ∧ second < 0xE000 then
              (characters? rest).map
                (Char.ofNat (0x10000 + (point - 0xD800) * 0x400 + (second - 0xDC00)) :: ·)
            else none
        | [] => none
      else if 0xDC00 ≤ point ∧ point < 0xE000 then none
      else (characters? rest).map (Char.ofNat point :: ·)

def string? (points : List Nat) : Option String :=
  (characters? points).map String.ofList

mutual

/-- The document that a node stands for: its texts are well formed, its numbers are in range, and its
containers are nested no deeper than `room`. -/
def document? (room : Nat) : Node → Option Document
  | .null => some .null
  | .bool b => some (.bool b)
  | .number numeral => numeral.value?
  | .text points => (string? points).map .text
  | .list items =>
      match room with
      | 0 => none
      | room + 1 => (documents? room items).map .list
  | .object entries =>
      match room with
      | 0 => none
      | room + 1 => (entries? room entries).map fun found => .object (sortEntries found)

def documents? (room : Nat) : List Node → Option (List Document)
  | [] => some []
  | node :: rest => do
      let item ← node.document? room
      let items ← documents? room rest
      return item :: items

def entries? (room : Nat) : List (List Nat × Node) → Option (List (String × Document))
  | [] => some []
  | (points, node) :: rest => do
      let key ← string? points
      let item ← node.document? room
      let items ← entries? room rest
      return (key, item) :: items

end

/-- How deep the containers of a document may be nested. -/
def depthLimit : Nat := 127

end Node

def read? (text : String) : Option Document :=
  (Node.read? text).bind (Node.document? Node.depthLimit)

end SqlMarshal.Document
