/-! # The tokens of JSON text

JSON text is cut into marks, names, numerals and quoted texts. A quoted text is kept as the code
points it spells, escapes of surrogates included, so that text which only has to be passed over need
not spell well-formed characters.
-/

namespace SqlMarshal.Document

/-- A numeral: sign, digits of the whole part, digits after a point, and a power of ten with its
sign. -/
structure NumberText where
  negative : Bool
  whole : List Char
  places : Option (List Char)
  power : Option (Bool × List Char)
  deriving DecidableEq, Repr

inductive Token where
  | listOpen | listClose | objectOpen | objectClose | comma | colon
  | null
  | bool (b : Bool)
  | number (numeral : NumberText)
  /-- A quoted text, by the code points it spells. -/
  | text (points : List Nat)
  deriving DecidableEq, Repr

def hexDigit? (c : Char) : Option Nat :=
  if c.isDigit then some (c.toNat - '0'.toNat)
  else if 'a' ≤ c ∧ c ≤ 'f' then some (c.toNat - 'a'.toNat + 10)
  else if 'A' ≤ c ∧ c ≤ 'F' then some (c.toNat - 'A'.toNat + 10)
  else none

def escaped? : Char → Option Char
  | '\x22' => some '\x22'
  | '\\' => some '\\'
  | '/' => some '/'
  | 'b' => some '\x08'
  | 'f' => some '\x0c'
  | 'n' => some '\n'
  | 'r' => some '\r'
  | 't' => some '\t'
  | _ => none

/-- The code points of a text after its opening quote, and what follows the closing one. -/
def readText? : List Char → Option (List Nat × List Char)
  | '\x22' :: rest => some ([], rest)
  | '\\' :: 'u' :: a :: b :: c :: d :: rest => do
      let digits ← [a, b, c, d].mapM hexDigit?
      let (points, rest) ← readText? rest
      return (digits.foldl (16 * · + ·) 0 :: points, rest)
  | '\\' :: letter :: rest => do
      let c ← escaped? letter
      let (points, rest) ← readText? rest
      return (c.toNat :: points, rest)
  | c :: rest =>
      if c.toNat < 32 then none
      else do
        let (points, rest) ← readText? rest
        return (c.toNat :: points, rest)
  | [] => none

/-- The longest run of digits, which must not be empty, and what follows it. -/
def readRun? (text : List Char) : Option (List Char × List Char) :=
  match text.takeWhile Char.isDigit with
  | [] => none
  | digits => some (digits, text.dropWhile Char.isDigit)

/-- A numeral at the front of a text. A whole part of several digits does not begin with a zero. -/
def readNumber? (text : List Char) : Option (NumberText × List Char) := do
  let (negative, text) := match text with
    | '-' :: rest => (true, rest)
    | _ => (false, text)
  let (whole, text) ← match text with
    | '0' :: rest => some (['0'], rest)
    | _ => readRun? text
  let (places, text) ← match text with
    | '.' :: rest => (readRun? rest).map fun (digits, rest) => (some digits, rest)
    | _ => some (none, text)
  let (power, text) ← match text with
    | mark :: rest =>
        if mark = 'e' ∨ mark = 'E' then
          match rest with
          | '-' :: rest => (readRun? rest).map fun (digits, rest) => (some (true, digits), rest)
          | '+' :: rest => (readRun? rest).map fun (digits, rest) => (some (false, digits), rest)
          | _ => (readRun? rest).map fun (digits, rest) => (some (false, digits), rest)
        else
          some (none, text)
    | [] => some (none, text)
  return (⟨negative, whole, places, power⟩, text)

/-- The token at the front of a text that does not begin with a blank, and what follows it. -/
def readToken? : List Char → Option (Token × List Char)
  | '[' :: rest => some (.listOpen, rest)
  | ']' :: rest => some (.listClose, rest)
  | '\x7b' :: rest => some (.objectOpen, rest)
  | '\x7d' :: rest => some (.objectClose, rest)
  | ',' :: rest => some (.comma, rest)
  | ':' :: rest => some (.colon, rest)
  | 'n' :: 'u' :: 'l' :: 'l' :: rest => some (.null, rest)
  | 't' :: 'r' :: 'u' :: 'e' :: rest => some (.bool true, rest)
  | 'f' :: 'a' :: 'l' :: 's' :: 'e' :: rest => some (.bool false, rest)
  | '\x22' :: rest => (readText? rest).map fun (points, rest) => (.text points, rest)
  | cs => (readNumber? cs).map fun (numeral, rest) => (.number numeral, rest)

def isSeparator (c : Char) : Bool :=
  c == ' ' || c == '\n' || c == '\t' || c == '\r'

/-- Cuts a text into tokens; every token takes at least one character, so a text has at most `room`
of them. -/
def tokensWithin? : (room : Nat) → List Char → Option (List Token)
  | room, chars =>
      match chars.dropWhile isSeparator with
      | [] => some []
      | cs =>
          match room with
          | 0 => none
          | room + 1 => do
              let (token, rest) ← readToken? cs
              let tokens ← tokensWithin? room rest
              return token :: tokens

def tokens? (text : List Char) : Option (List Token) :=
  tokensWithin? text.length text

end SqlMarshal.Document
