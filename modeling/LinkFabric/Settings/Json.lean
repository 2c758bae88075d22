/-!
# Strict JSON

Lists of links and keys are written as JSON. The reader takes exactly the standard
format: no comments, no trailing commas, no leading zeros, and nothing but white space
around the value. Objects keep all their fields in order, repeated ones too, so that a
later reader can refuse repetitions.

An escape sequence may name half of a character. A string with such a half has no
text, which matters only where the text is looked at.
-/

namespace LinkFabric

/-- A JSON value. A number is natural if it has no sign, fraction and exponent. A string may be
without a text, and fields of an object keep their order. -/
inductive Json where
  | null
  | bool (value : Bool)
  | natural (value : Nat)
  | number
  | string (text : Option String)
  | array (items : List Json)
  | object (fields : List (Option String × Json))

namespace Json

/-- The white space of the format. -/
def isSpace (c : Char) : Bool := c == ' ' || c == '\t' || c == '\n' || c == '\r'

/-- A text without the white space it begins with. -/
def skipSpace (cs : List Char) : List Char := cs.dropWhile isSpace

/-- Reads a word that has to be there. -/
def readWord : List Char → List Char → Option (List Char)
  | [], cs => some cs
  | w :: word, c :: cs => if w = c then readWord word cs else none
  | _ :: _, [] => none

/-! ## Numbers -/

/-- The digits that a text begins with, and the rest. -/
def readDigits (cs : List Char) : List Char × List Char :=
  (cs.takeWhile Char.isDigit, cs.dropWhile Char.isDigit)

/-- Reads one or more digits. -/
def readDigits1 (cs : List Char) : Option (List Char × List Char) :=
  match readDigits cs with
  | ([], _) => none
  | (ds, rest) => some (ds, rest)

/-- Reads the digits before a point, without leading zeros. -/
def readWhole : List Char → Option (List Char × List Char)
  | '0' :: rest =>
    match rest with
    | c :: _ => if c.isDigit then none else some (['0'], rest)
    | [] => some (['0'], rest)
  | cs => readDigits1 cs

/-- Reads a fraction, if there is one. Says whether there was. -/
def readFraction : List Char → Option (Bool × List Char)
  | '.' :: rest => (readDigits1 rest).map fun p => (true, p.2)
  | cs => some (false, cs)

/-- Skips a sign. -/
def skipSign : List Char → List Char
  | '+' :: rest => rest
  | '-' :: rest => rest
  | cs => cs

/-- Reads an exponent, if there is one. Says whether there was. -/
def readExponent : List Char → Option (Bool × List Char)
  | 'e' :: rest => (readDigits1 (skipSign rest)).map fun p => (true, p.2)
  | 'E' :: rest => (readDigits1 (skipSign rest)).map fun p => (true, p.2)
  | cs => some (false, cs)

/-- The number that decimal digits write. -/
def decimal (ds : List Char) : Nat := ds.foldl (fun n c => 10 * n + (c.toNat - '0'.toNat)) 0

/-- Reads a number without sign. -/
def readUnsigned (cs : List Char) : Option (Json × List Char) := do
  let (whole, cs) ← readWhole cs
  let (fraction, cs) ← readFraction cs
  let (exponent, cs) ← readExponent cs
  return (if fraction || exponent then number else natural (decimal whole), cs)

/-- Reads a number. -/
def readNumber : List Char → Option (Json × List Char)
  | '-' :: rest => (readUnsigned rest).map fun p => (number, p.2)
  | cs => readUnsigned cs

/-! ## Strings -/

/-- A piece of a string: a character, or a 16-bit unit that may be half of one. -/
inductive Piece where
  | char (c : Char)
  | unit (n : Nat)

/-- The value of a hexadecimal digit. -/
def hexValue? (c : Char) : Option Nat :=
  if c.isDigit then some (c.toNat - '0'.toNat)
  else if 'a' ≤ c ∧ c ≤ 'f' then some (c.toNat - 'a'.toNat + 10)
  else if 'A' ≤ c ∧ c ≤ 'F' then some (c.toNat - 'A'.toNat + 10)
  else none

/-- Reads the four digits of a unit. -/
def readUnit : List Char → Option (Nat × List Char)
  | a :: b :: c :: d :: rest => do
    let a ← hexValue? a
    let b ← hexValue? b
    let c ← hexValue? c
    let d ← hexValue? d
    return (((a * 16 + b) * 16 + c) * 16 + d, rest)
  | _ => none

/-- Reads what follows a backslash. -/
def readEscape : List Char → Option (Piece × List Char)
  | '"' :: rest => some (.char '"', rest)
  | '\\' :: rest => some (.char '\\', rest)
  | '/' :: rest => some (.char '/', rest)
  | 'b' :: rest => some (.char '\x08', rest)
  | 'f' :: rest => some (.char '\x0c', rest)
  | 'n' :: rest => some (.char '\n', rest)
  | 'r' :: rest => some (.char '\r', rest)
  | 't' :: rest => some (.char '\t', rest)
  | 'u' :: rest => (readUnit rest).map fun p => (.unit p.1, p.2)
  | _ => none

/-- Reads the pieces of a string up to its closing quote, at most `fuel` of them. -/
def readPieces : (fuel : Nat) → List Char → Option (List Piece × List Char)
  | 0, _ => none
  | _ + 1, [] => none
  | _ + 1, '"' :: rest => some ([], rest)
  | fuel + 1, '\\' :: rest => do
    let (piece, rest) ← readEscape rest
    let (pieces, rest) ← readPieces fuel rest
    return (piece :: pieces, rest)
  | fuel + 1, c :: rest =>
    if c.toNat < 0x20 then none
    else do
      let (pieces, rest) ← readPieces fuel rest
      return (.char c :: pieces, rest)

/-- The text of pieces. Units outside the surrogates are characters, a high surrogate
followed by a low one is one character, and any other surrogate has no text. -/
def textOf : List Piece → Option (List Char)
  | [] => some []
  | .char c :: rest => (textOf rest).map (c :: ·)
  | .unit high :: .unit low :: rest =>
    if 0xD800 ≤ high ∧ high < 0xDC00 then
      if 0xDC00 ≤ low ∧ low < 0xE000 then
        let c := Char.ofNat (0x10000 + (high - 0xD800) * 0x400 + (low - 0xDC00))
        (textOf rest).map (c :: ·)
      else none
    else if 0xDC00 ≤ high ∧ high < 0xE000 then none
    else (textOf (.unit low :: rest)).map (Char.ofNat high :: ·)
  | .unit n :: rest =>
    if 0xD800 ≤ n ∧ n < 0xE000 then none else (textOf rest).map (Char.ofNat n :: ·)

/-- Reads a string after its opening quote. -/
def readString (cs : List Char) : Option (Option String × List Char) := do
  let (pieces, rest) ← readPieces (cs.length + 1) cs
  return ((textOf pieces).map String.ofList, rest)

/-! ## Values -/

mutual

/-- Reads a value, at most `fuel` deep. -/
def readValue : (fuel : Nat) → List Char → Option (Json × List Char)
  | 0, _ => none
  | fuel + 1, cs =>
    match skipSpace cs with
    | 'n' :: rest => (readWord ['u', 'l', 'l'] rest).map fun r => (null, r)
    | 't' :: rest => (readWord ['r', 'u', 'e'] rest).map fun r => (bool true, r)
    | 'f' :: rest => (readWord ['a', 'l', 's', 'e'] rest).map fun r => (bool false, r)
    | '"' :: rest => (readString rest).map fun p => (string p.1, p.2)
    | '[' :: rest =>
      match skipSpace rest with
      | ']' :: rest => some (array [], rest)
      | rest => (readItems fuel rest).map fun p => (array p.1, p.2)
    | '\x7b' :: rest =>
      match skipSpace rest with
      | '\x7d' :: rest => some (object [], rest)
      | rest => (readFields fuel rest).map fun p => (object p.1, p.2)
    | rest => readNumber rest

/-- Reads one or more values up to the end of an array. -/
def readItems : (fuel : Nat) → List Char → Option (List Json × List Char)
  | 0, _ => none
  | fuel + 1, cs => do
    let (item, rest) ← readValue fuel cs
    match skipSpace rest with
    | ']' :: rest => return ([item], rest)
    | ',' :: rest =>
      let (items, rest) ← readItems fuel rest
      return (item :: items, rest)
    | _ => none

/-- Reads one or more fields up to the end of an object. -/
def readFields : (fuel : Nat) → List Char → Option (List (Option String × Json) × List Char)
  | 0, _ => none
  | fuel + 1, cs => do
    match skipSpace cs with
    | '"' :: rest =>
      let (name, rest) ← readString rest
      match skipSpace rest with
      | ':' :: rest =>
        let (value, rest) ← readValue fuel rest
        match skipSpace rest with
        | '\x7d' :: rest => return ([(name, value)], rest)
        | ',' :: rest =>
          let (fields, rest) ← readFields fuel rest
          return ((name, value) :: fields, rest)
        | _ => none
      | _ => none
    | _ => none

end

/-- Reads a whole text as a JSON value. Every level of the reader takes a character, so a
text is never deeper than it is long. -/
def read? (s : String) : Option Json := do
  let cs := s.toList
  let (value, rest) ← readValue (2 * cs.length + 2) cs
  if (skipSpace rest).isEmpty then return value else none

end Json

end LinkFabric
