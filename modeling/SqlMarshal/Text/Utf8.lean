/-! # UTF-8

Bytes are read by a machine that takes one byte at a time and is either at the start of a character
or waits for continuation bytes. Overlong forms, surrogates and numbers beyond U+10FFFF are excluded
by the range that the first continuation byte has to lie in. A byte that cannot continue what was
begun ends it as malformed and is looked at again as a first byte, so a malformed run is always the
longest one that a well-formed character could have begun with.
-/

namespace SqlMarshal.Utf8

/-- Where the machine stands between two bytes. -/
inductive State where
  /-- A new character begins with the next byte. -/
  | start
  /-- The next byte must lie between `low` and `high`, and `more` bytes follow it; `point` is the
  number read so far. -/
  | within (more : Nat) (low high : UInt8) (point : Nat)
  deriving DecidableEq, Repr

/-- The step at a first byte: the characters it completes, a malformed one being `none`, and the
state after it. -/
def begin (byte : UInt8) : List (Option Char) × State :=
  if byte < 0x80 then ([some (Char.ofNat byte.toNat)], .start)
  else if byte < 0xC2 then ([none], .start)
  else if byte < 0xE0 then ([], .within 0 0x80 0xBF (byte.toNat - 0xC0))
  else if byte = 0xE0 then ([], .within 1 0xA0 0xBF 0)
  else if byte = 0xED then ([], .within 1 0x80 0x9F 0xD)
  else if byte < 0xF0 then ([], .within 1 0x80 0xBF (byte.toNat - 0xE0))
  else if byte = 0xF0 then ([], .within 2 0x90 0xBF 0)
  else if byte < 0xF4 then ([], .within 2 0x80 0xBF (byte.toNat - 0xF0))
  else if byte = 0xF4 then ([], .within 2 0x80 0x8F 4)
  else ([none], .start)

/-- The step at any byte. -/
def step (state : State) (byte : UInt8) : List (Option Char) × State :=
  match state with
  | .start => begin byte
  | .within more low high point =>
      if low ≤ byte ∧ byte ≤ high then
        let point := point * 64 + (byte.toNat - 0x80)
        match more with
        | 0 => ([some (Char.ofNat point)], .start)
        | more + 1 => ([], .within more 0x80 0xBF point)
      else
        let (found, next) := begin byte
        (none :: found, next)

/-- The characters of a byte sequence read from a state, a malformed run being `none`. -/
def read : State → List UInt8 → List (Option Char)
  | .start, [] => []
  | .within .., [] => [none]
  | state, byte :: rest => (step state byte).1 ++ read (step state byte).2 rest

def decode? (bytes : List UInt8) : Option String :=
  ((read .start bytes).mapM id).map String.ofList

/-- The text of any bytes, with the replacement character for each malformed run. -/
def decodeReplacing (bytes : List UInt8) : String :=
  String.ofList ((read .start bytes).map (·.getD '\uFFFD'))

def encode (text : String) : List UInt8 :=
  text.toList.flatMap String.utf8EncodeChar

def size : List Char → Nat
  | [] => 0
  | c :: rest => c.utf8Size + size rest

end SqlMarshal.Utf8
