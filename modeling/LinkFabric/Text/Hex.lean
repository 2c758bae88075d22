import LinkFabric.Bytes
import LinkFabric.Text.Numeral

/-!
# Hexadecimal text

Numbers in messages and identities are written in lower-case hexadecimal, either
with as many digits as they need or padded with zeros to a fixed width. Byte strings
are written with two digits for each byte.
-/

namespace LinkFabric.Hex

/-- The hexadecimal digits of a number, without leading zeros. -/
def digits (n : Nat) : List Char := Nat.toDigits 16 n

/-- The hexadecimal digits of a number, padded with zeros on the left to `width`. -/
def padded (width n : Nat) : String :=
  let ds := digits n
  String.ofList (List.replicate (width - ds.length) '0' ++ ds)

/-- A 32-bit word as a message shows it: `0x` and eight digits. -/
def word32 (w : UInt32) : String := "0x" ++ padded 8 w.toNat

/-- A byte as a message shows it: `0x` and two digits. -/
def byte (b : UInt8) : String := "0x" ++ padded 2 b.toNat

/-- A number of any size: `0x` and its digits. -/
def number (n : Nat) : String := "0x" ++ String.ofList (digits n)

/-- A byte string, two digits for each byte. -/
def bytes (bs : Bytes) : String := String.join (bs.map fun b => padded 2 b.toNat)

/-- Reads a byte string of two digits for each byte, in either case. -/
def readBytes? : List Char → Option Bytes
  | [] => some []
  | [_] => none
  | high :: low :: rest => do
    let high ← digitValue? 16 high
    let low ← digitValue? 16 low
    let bs ← readBytes? rest
    return UInt8.ofNat (16 * high + low) :: bs

end LinkFabric.Hex
