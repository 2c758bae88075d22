/-!
# Unsigned numerals

An unsigned number is written as digits of a radix with at most one leading plus
sign. Digits are read from left to right, and the first one that is no digit or
takes the number past its bound decides the fault that is reported.
-/

namespace LinkFabric

/-- The value of a character as a digit of the given radix, in either case. -/
def digitValue? (radix : Nat) (c : Char) : Option Nat :=
  let value? :=
    if '0' ≤ c ∧ c ≤ '9' then some (c.toNat - '0'.toNat)
    else if 'a' ≤ c ∧ c ≤ 'z' then some (c.toNat - 'a'.toNat + 10)
    else if 'A' ≤ c ∧ c ≤ 'Z' then some (c.toNat - 'A'.toNat + 10)
    else none
  value?.filter (· < radix)

/-- Why a text is no unsigned number within its bound: there is no text, a character is not a
digit or there is only a sign, or the digits so far exceed the bound. -/
inductive NumeralFault where
  | empty | invalidDigit | tooLarge
  deriving DecidableEq, Repr

/-- The wording of a fault. -/
def NumeralFault.message : NumeralFault → String
  | .empty => "cannot parse integer from empty string"
  | .invalidDigit => "invalid digit found in string"
  | .tooLarge => "number too large to fit in target type"

namespace Numeral

/-- Appends digits to the number read so far, which may not exceed `bound`. -/
def readDigits (radix bound : Nat) : Nat → List Char → Except NumeralFault Nat
  | acc, [] => .ok acc
  | acc, c :: rest =>
    match digitValue? radix c with
    | none => .error .invalidDigit
    | some d =>
      if acc * radix + d ≤ bound then readDigits radix bound (acc * radix + d) rest
      else .error .tooLarge

/-- Reads a whole text as a number of at most `bound`. -/
def read (radix bound : Nat) : List Char → Except NumeralFault Nat
  | [] => .error .empty
  | ['+'] => .error .invalidDigit
  | '+' :: rest => readDigits radix bound 0 rest
  | cs => readDigits radix bound 0 cs

/-- Reads a decimal number, or a hexadecimal one after `0x` or `0X`. -/
def readPrefixed (bound : Nat) : List Char → Except NumeralFault Nat
  | '0' :: 'x' :: rest => read 16 bound rest
  | '0' :: 'X' :: rest => read 16 bound rest
  | cs => read 10 bound cs

end Numeral

end LinkFabric
