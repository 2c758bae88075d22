/-!
# Double-precision numbers

Values of every numeric type are reduced as IEEE 754 binary64 numbers. A number is
kept as its bit pattern. Conversions to integers and to single precision are done
exactly on the pattern; only sums and quotients use the machine's arithmetic.

A finite number is a signed multiple `m * 2 ^ q`. Rounding goes to the nearest
pattern, and a tie goes to the even one.
-/

namespace LinkFabric

/-- An IEEE 754 binary64 number, as its bit pattern: sign, exponent and fraction, most
significant first. -/
structure Binary64 where
  bits : UInt64
  deriving DecidableEq, Repr

namespace Rounding

/-- `m / 2 ^ s` rounded to the nearest integer, a tie to the even one. -/
def halfEven (m s : Nat) : Nat :=
  let quotient := m >>> s
  let remainder := m % (1 <<< s)
  if 2 * remainder < 1 <<< s then quotient
  else if 1 <<< s < 2 * remainder then quotient + 1
  else quotient + quotient % 2

/-- The magnitude pattern nearest to `m * 2 ^ q` in a format with the given number of
fraction bits, whose smallest positive number is `2 ^ least`. The pattern of a number
that is too large lies at or past the pattern of infinity. -/
def pattern (fractionBits : Nat) (least : Int) (m : Nat) (q : Int) : Nat :=
  if m = 0 then 0
  else
    let unit := max ((m.log2 : Int) + q - fractionBits) least
    let significand :=
      if unit ≤ q then m <<< (q - unit).toNat else halfEven m (unit - q).toNat
    (unit - least).toNat <<< fractionBits + significand

end Rounding

namespace Binary64

/-! ## The parts of a pattern -/

/-- The sign bit. -/
def isNegative (x : Binary64) : Bool := x.bits.toNat >>> 63 == 1

/-- The pattern without its sign bit. -/
def magnitude (x : Binary64) : Nat := x.bits.toNat % (1 <<< 63)

/-- The pattern of infinity. -/
def infinityPattern : Nat := 2047 <<< 52

/-- Whether the pattern is not a number. -/
def isNaN (x : Binary64) : Bool := infinityPattern < x.magnitude

/-- The significand of a finite number, as an integer. -/
def significand (x : Binary64) : Nat :=
  if x.magnitude < 1 <<< 52 then x.magnitude else x.magnitude % (1 <<< 52) + (1 <<< 52)

/-- The exponent that goes with `significand`. -/
def exponent (x : Binary64) : Int :=
  if x.magnitude < 1 <<< 52 then -1074 else (x.magnitude >>> 52 : Nat) - 1075

/-- The pattern with the given sign and magnitude. -/
def ofParts (negative : Bool) (magnitude : Nat) : Binary64 :=
  ⟨UInt64.ofNat ((if negative then 1 <<< 63 else 0) + magnitude)⟩

/-- Positive infinity. -/
def infinity : Binary64 := ofParts false infinityPattern

/-- Negative infinity. -/
def negInfinity : Binary64 := ofParts true infinityPattern

/-- Positive zero. -/
def zero : Binary64 := ofParts false 0

/-- Negative zero. -/
def negZero : Binary64 := ofParts true 0

/-! ## Integers -/

/-- The double nearest to an integer. -/
def ofInt (n : Int) : Binary64 :=
  ofParts (decide (n < 0)) (Rounding.pattern 52 (-1074) n.natAbs 0)

/-- A finite number without its fraction. -/
def truncate (x : Binary64) : Int :=
  let whole : Nat :=
    if 0 ≤ x.exponent then x.significand <<< x.exponent.toNat
    else x.significand >>> (-x.exponent).toNat
  if x.isNegative then -(whole : Int) else whole

/-- The integer part of a number, held within two bounds. What is not a number counts
as zero. -/
def toIntWithin (low high : Int) (x : Binary64) : Int :=
  if x.isNaN then 0
  else if x.magnitude = infinityPattern then if x.isNegative then low else high
  else max low (min high x.truncate)

/-! ## Single precision -/

/-- The pattern of infinity in single precision. -/
def singleInfinityPattern : Nat := 255 <<< 23

/-- The single-precision pattern nearest to a number. What is not a number stays so, with
its sign and the leading bits of its fraction. -/
def toSingle (x : Binary64) : UInt32 :=
  let sign : Nat := if x.isNegative then 1 <<< 31 else 0
  let magnitude : Nat :=
    if x.isNaN then singleInfinityPattern ||| 1 <<< 22 ||| (x.magnitude % (1 <<< 52)) >>> 29
    else if x.magnitude = infinityPattern then singleInfinityPattern
    else min singleInfinityPattern (Rounding.pattern 23 (-149) x.significand x.exponent)
  UInt32.ofNat (sign + magnitude)

/-- The number with a given single-precision pattern. -/
def ofSingle (w : UInt32) : Binary64 :=
  let negative := w.toNat >>> 31 == 1
  let magnitude := w.toNat % (1 <<< 31)
  let fraction := magnitude % (1 <<< 23)
  if singleInfinityPattern < magnitude then
    ofParts negative (infinityPattern ||| 1 <<< 51 ||| fraction <<< 29)
  else if magnitude = singleInfinityPattern then ofParts negative infinityPattern
  else if magnitude < 1 <<< 23 then
    ofParts negative (Rounding.pattern 52 (-1074) magnitude (-149))
  else
    let exponent : Int := (magnitude >>> 23 : Nat) - 150
    ofParts negative (Rounding.pattern 52 (-1074) (fraction + (1 <<< 23)) exponent)

/-! ## Arithmetic and order -/

/-- The sum of two numbers. -/
def add (x y : Binary64) : Binary64 := ⟨(Float.ofBits x.bits + Float.ofBits y.bits).toBits⟩

/-- The quotient of two numbers. -/
def div (x y : Binary64) : Binary64 := ⟨(Float.ofBits x.bits / Float.ofBits y.bits).toBits⟩

/-- An integer that orders the numbers; the two zeros share one. -/
def orderKey (x : Binary64) : Int := if x.isNegative then -(x.magnitude : Int) else x.magnitude

/-- The smaller of two numbers; of the two zeros, the second one. What is not a number
loses. -/
def least (x y : Binary64) : Binary64 :=
  if x.isNaN then y else if y.isNaN then x else if x.orderKey < y.orderKey then x else y

/-- The larger of two numbers; of the two zeros, the second one. What is not a number
loses. -/
def greatest (x y : Binary64) : Binary64 :=
  if x.isNaN then y else if y.isNaN then x else if y.orderKey < x.orderKey then x else y

/-- Whether a number is one of the two zeros. -/
def isZero (x : Binary64) : Bool := x.magnitude == 0

end Binary64

end LinkFabric
