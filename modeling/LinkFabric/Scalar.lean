/-!
# Element types and shapes

A value is an array of elements of one type. Its shape, the element type and the
count, is what a key promises and what two values are compared by before one may
replace the other.
-/

namespace LinkFabric

/-- The type of the elements of a value. -/
inductive ScalarType where
  | bool | u8 | i8 | u16 | i16 | u32 | i32 | f32 | u64 | i64 | f64
  deriving DecidableEq, Repr

namespace ScalarType

/-- The types in the order of their codes. -/
def all : List ScalarType := [bool, u8, i8, u16, i16, u32, i32, f32, u64, i64, f64]

/-- The code of a type on the wire. -/
def code : ScalarType → UInt8
  | bool => 0 | u8 => 1 | i8 => 2 | u16 => 3 | i16 => 4 | u32 => 5
  | i32 => 6 | f32 => 7 | u64 => 8 | i64 => 9 | f64 => 10

/-- The type with the given code. -/
def ofCode? (n : UInt8) : Option ScalarType := all.find? fun t => t.code == n

/-- Bytes per element. -/
def size : ScalarType → Nat
  | bool | u8 | i8 => 1
  | u16 | i16 => 2
  | u32 | i32 | f32 => 4
  | u64 | i64 | f64 => 8

/-- Whether elements can be compared and added. -/
def isNumeric : ScalarType → Bool
  | bool => false
  | _ => true

/-- The name a type has in settings. -/
def name : ScalarType → String
  | bool => "bool" | u8 => "u8" | i8 => "i8" | u16 => "u16" | i16 => "i16" | u32 => "u32"
  | i32 => "i32" | f32 => "f32" | u64 => "u64" | i64 => "i64" | f64 => "f64"

/-- The type with the given name. -/
def ofName? (s : String) : Option ScalarType := all.find? fun t => t.name == s

/-- The name a type has in messages. -/
def label : ScalarType → String
  | bool => "Bool" | u8 => "U8" | i8 => "I8" | u16 => "U16" | i16 => "I16" | u32 => "U32"
  | i32 => "I32" | f32 => "F32" | u64 => "U64" | i64 => "I64" | f64 => "F64"

@[simp] theorem ofCode?_code (t : ScalarType) : ofCode? t.code = some t := by
  cases t <;> rfl

theorem ofCode?_eq_some_iff {n : UInt8} {t : ScalarType} : ofCode? n = some t ↔ n = t.code := by
  constructor
  · intro h
    have hcode := List.find?_some h
    exact (eq_of_beq hcode).symm
  · rintro rfl
    exact ofCode?_code t

end ScalarType

/-- The element type of a value and the number of its elements. -/
structure Shape where
  type : ScalarType
  count : UInt8
  deriving DecidableEq, Repr

namespace Shape

/-- Bytes that a value of this shape takes. -/
def byteLength (s : Shape) : Nat := s.type.size * s.count.toNat

/-- Whether a value of this shape has several elements. -/
def isArray (s : Shape) : Bool := 1 < s.count

end Shape

end LinkFabric
