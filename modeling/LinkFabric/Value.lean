import LinkFabric.Binary64
import LinkFabric.Bytes
import LinkFabric.Link.Error

/-!
# Values

A value is a byte string together with its shape, and always has the length that the
shape asks for. Its first element can be read as a number, and a number can be
written as a single element of any type: integers lose the fraction and stay within
their range, a boolean is whether the number differs from zero.
-/

namespace LinkFabric

/-- A value: elements of one type, in little-endian bytes. -/
structure Value where
  shape : Shape
  data : Bytes
  length_data : data.length = shape.byteLength
  deriving DecidableEq

namespace ScalarType

/-- The smallest and the largest integer of an integer type; for others, of a byte. -/
def range : ScalarType → Int × Int
  | i8 => (Int8.minValue.toInt, Int8.maxValue.toInt)
  | i16 => (Int16.minValue.toInt, Int16.maxValue.toInt)
  | i32 => (Int32.minValue.toInt, Int32.maxValue.toInt)
  | i64 => (Int64.minValue.toInt, Int64.maxValue.toInt)
  | u16 => (0, UInt16.size - 1)
  | u32 => (0, UInt32.size - 1)
  | u64 => (0, UInt64.size - 1)
  | _ => (0, UInt8.size - 1)

/-- The number of patterns that an element can have. -/
def patterns (t : ScalarType) : Nat := 1 <<< (8 * t.size)

/-- The pattern of a number as an element, as an unsigned word of the element's size. -/
def elementPattern (t : ScalarType) (x : Binary64) : Nat :=
  match t with
  | bool => if x.isZero then 0 else 1
  | f32 => x.toSingle.toNat
  | f64 => x.bits.toNat
  | _ => (x.toIntWithin t.range.1 t.range.2 % t.patterns).toNat

/-- The number that an element's pattern stands for. -/
def elementNumber (t : ScalarType) (n : Nat) : Binary64 :=
  match t with
  | bool => Binary64.ofInt (if n = 0 then 0 else 1)
  | f32 => Binary64.ofSingle (UInt32.ofNat n)
  | f64 => ⟨UInt64.ofNat n⟩
  | i8 | i16 | i32 | i64 =>
    Binary64.ofInt (if 2 * n < t.patterns then n else (n : Int) - t.patterns)
  | _ => Binary64.ofInt n

end ScalarType

namespace Value

/-- The value with the given shape and bytes. -/
def ofBytes (shape : Shape) (data : Bytes) : Except LinkError Value :=
  if h : data.length = shape.byteLength then .ok ⟨shape, data, h⟩
  else .error (.valueLength shape.byteLength data.length)

/-- A number as a single element. -/
def ofNumber (type : ScalarType) (x : Binary64) : Value :=
  ⟨⟨type, 1⟩, LittleEndian.encode type.size (type.elementPattern x), by simp [Shape.byteLength]⟩

/-- A 32-bit word as a value. -/
def ofWord32 (w : UInt32) : Value := ⟨⟨.u32, 1⟩, LittleEndian.word32 w, by simp; rfl⟩

/-- A boolean as a value. -/
def ofBool (b : Bool) : Value := ⟨⟨.bool, 1⟩, [if b then 1 else 0], rfl⟩

/-- The first element as a number, if there is one. -/
def number? (v : Value) : Option Binary64 :=
  if v.data.length < v.shape.type.size then none
  else some (v.shape.type.elementNumber (LittleEndian.decode (v.data.take v.shape.type.size)))

end Value

end LinkFabric
