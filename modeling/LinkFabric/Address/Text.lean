import LinkFabric.Address.Basic
import LinkFabric.Text.Hex
import LinkFabric.Text.Numeral

/-!
# Addresses as text

Reading is strict: octets have no leading zeros, groups at most four digits, `::`
stands for at least one group, and a dotted quad may end a version 6 address.

Writing gives one form per address: lower case, the longest run of two or more zero
groups as `::` (the first of equal runs), and the dotted form only for version 4
addresses mapped into version 6.
-/

namespace LinkFabric.Address

/-! ## Reading -/

/-- Reads a bounded number of digits at the start of a text, and returns the rest. -/
def readGroup (radix maxDigits bound : Nat) (leadingZeros : Bool) (cs : List Char) :
    Option (Nat × List Char) :=
  let ds := cs.takeWhile fun c => (digitValue? radix c).isSome
  let value := ds.foldl (fun acc c => acc * radix + (digitValue? radix c).getD 0) 0
  if ds.isEmpty || maxDigits < ds.length then none
  else if !leadingZeros && ds.head? == some '0' && 1 < ds.length then none
  else if bound < value then none
  else some (value, cs.drop ds.length)

/-- Reads an octet of a dotted quad. -/
def readOctet (cs : List Char) : Option (Nat × List Char) := readGroup 10 3 255 false cs

/-- Reads a character that has to be there. -/
def readChar (c : Char) : List Char → Option (List Char)
  | c' :: rest => if c' = c then some rest else none
  | [] => none

/-- Reads four octets divided by points. -/
def readQuad (cs : List Char) : Option ((Nat × Nat × Nat × Nat) × List Char) := do
  let (a, cs) ← readOctet cs
  let (b, cs) ← readOctet (← readChar '.' cs)
  let (c, cs) ← readOctet (← readChar '.' cs)
  let (d, cs) ← readOctet (← readChar '.' cs)
  return ((a, b, c, d), cs)

/-- Reads after a colon, except at the first place of a sequence. -/
def readSeparated {α : Type} (first : Bool) (read : List Char → Option (α × List Char))
    (cs : List Char) : Option (α × List Char) :=
  if first then read cs else (readChar ':' cs).bind read

/-- Reads up to `left` groups divided by colons. A dotted quad fills the last two places
and ends the sequence. Returns the groups, whether a quad ended them, and the rest. -/
def readGroups : (left : Nat) → (first : Bool) → List Char → List Nat × Bool × List Char
  | 0, _, cs => ([], false, cs)
  | left + 1, first, cs =>
    match if left = 0 then none else readSeparated first readQuad cs with
    | some ((a, b, c, d), rest) => ([a * 256 + b, c * 256 + d], true, rest)
    | none =>
      match readSeparated first (readGroup 16 4 65535 true) cs with
      | none => ([], false, cs)
      | some (g, rest) =>
        let (gs, quad, rest) := readGroups left false rest
        (g :: gs, quad, rest)

/-- Reads a version 6 address at the start of a text. -/
def readGroupForm (cs : List Char) : Option (Address × List Char) := do
  let (head, quad, rest) := readGroups 8 true cs
  if head.length = 8 then return (ofGroups head, rest)
  if quad then none
  let rest ← readChar ':' rest
  let rest ← readChar ':' rest
  let (tail, _, rest) := readGroups (7 - head.length) true rest
  let zeros := List.replicate (8 - head.length - tail.length) 0
  return (ofGroups (head ++ zeros ++ tail), rest)

/-- Reads a whole text as an address. -/
def read? (cs : List Char) : Option Address := do
  let (address, rest) ←
    match readQuad cs with
    | some ((a, b, c, d), rest) => some (ofOctets a b c d, rest)
    | none => readGroupForm cs
  if rest.isEmpty then return address else none

/-- Reads an address from a string. -/
def ofString? (s : String) : Option Address := read? s.toList

/-! ## Writing -/

/-- The dotted form of a version 4 address. -/
def quadText (bits : UInt32) : String :=
  ".".intercalate ((octets bits).map fun o => toString o)

/-- Groups in hexadecimal, divided by colons. -/
def groupsText (gs : List Nat) : String :=
  ":".intercalate (gs.map fun g => String.ofList (Hex.digits g))

/-- Where the longest run of zero groups starts and how long it is, the first on a tie. -/
def zeroRun (gs : List Nat) : Nat × Nat :=
  (List.range gs.length).foldl
    (fun best i =>
      let length := ((gs.drop i).takeWhile (· = 0)).length
      if best.2 < length then (i, length) else best)
    (0, 0)

/-- The text of an address. -/
def text : Address → String
  | v4 bits => quadText bits
  | v6 bits =>
    let gs := groups bits
    if gs.take 6 = [0, 0, 0, 0, 0, 65535] then
      "::ffff:" ++ quadText (UInt32.ofNat bits.toNat)
    else
      let (start, length) := zeroRun gs
      if length < 2 then groupsText gs
      else groupsText (gs.take start) ++ "::" ++ groupsText (gs.drop (start + length))

end LinkFabric.Address
