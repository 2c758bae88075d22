/-!
# Byte strings and little-endian words

Everything on the wire is a list of bytes. Numbers are written least significant
byte first; `LittleEndian.encode` and `LittleEndian.decode` do this for any width,
and the fixed-width words of the protocol are read and written through them.

Main statements:

* `LittleEndian.decode_encode`: reading what was written gives the number back, if it
  fits the width.
* `LittleEndian.encode_decode`: writing what was read gives the bytes back.
-/

namespace LinkFabric

/-- A byte string. -/
abbrev Bytes := List UInt8

namespace LittleEndian

/-- The low `width` bytes of a number, least significant first. -/
def encode : (width : Nat) → Nat → Bytes
  | 0, _ => []
  | width + 1, n => UInt8.ofNat n :: encode width (n / 256)

/-- The number whose bytes, least significant first, are given. -/
def decode : Bytes → Nat
  | [] => 0
  | b :: rest => b.toNat + 256 * decode rest

@[simp] theorem length_encode (width n : Nat) : (encode width n).length = width := by
  induction width generalizing n with
  | zero => rfl
  | succ width ih => simp [encode, ih]

/-- One byte more makes room for eight bits more. -/
theorem shiftRight_succ (n width : Nat) :
    n >>> (8 * (width + 1)) = (n / 256) >>> (8 * width) := by
  rw [show 8 * (width + 1) = 8 + 8 * width by omega, Nat.shiftRight_add,
    Nat.shiftRight_eq_div_pow n 8]

/-- A number that is read from bytes fits as many bytes. -/
theorem shiftRight_decode (bytes : Bytes) : decode bytes >>> (8 * bytes.length) = 0 := by
  induction bytes with
  | nil => rfl
  | cons b rest ih =>
    have hb : b.toNat < 256 := b.toNat_lt
    have hquot : (b.toNat + 256 * decode rest) / 256 = decode rest := by omega
    rw [List.length_cons, shiftRight_succ, decode, hquot, ih]

/-- A number that fits the width is read back. -/
theorem decode_encode {width n : Nat} (h : n >>> (8 * width) = 0) :
    decode (encode width n) = n := by
  induction width generalizing n with
  | zero => exact h.symm
  | succ width ih =>
    have hb : (UInt8.ofNat n).toNat = n % 256 := by simp [UInt8.toNat_ofNat']
    rw [shiftRight_succ] at h
    rw [encode, decode, ih h, hb]
    omega

theorem encode_decode (bytes : Bytes) : encode bytes.length (decode bytes) = bytes := by
  induction bytes with
  | nil => rfl
  | cons b rest ih =>
    have hb : b.toNat < 256 := b.toNat_lt
    have hquot : (b.toNat + 256 * decode rest) / 256 = decode rest := by omega
    have hlow : UInt8.ofNat (b.toNat + 256 * decode rest) = b := by
      apply UInt8.toNat.inj
      rw [UInt8.toNat_ofNat']
      omega
    simp only [List.length_cons, encode, decode, hquot, ih, hlow]

/-! ## Words -/

/-- The two bytes of a 16-bit word. -/
def word16 (w : UInt16) : Bytes := encode 2 w.toNat

/-- The four bytes of a 32-bit word. -/
def word32 (w : UInt32) : Bytes := encode 4 w.toNat

/-- The eight bytes of a 64-bit word. -/
def word64 (w : UInt64) : Bytes := encode 8 w.toNat

@[simp] theorem length_word16 (w : UInt16) : (word16 w).length = 2 := length_encode _ _

@[simp] theorem length_word32 (w : UInt32) : (word32 w).length = 4 := length_encode _ _

@[simp] theorem length_word64 (w : UInt64) : (word64 w).length = 8 := length_encode _ _

/-- The length of records that all have the same length. -/
theorem length_flatMap_eq {α : Type} {f : α → Bytes} {width : Nat}
    (h : ∀ x, (f x).length = width) (xs : List α) :
    (xs.flatMap f).length = width * xs.length := by
  induction xs with
  | nil => rfl
  | cons x rest ih =>
    rw [List.flatMap_cons, List.length_append, ih, h, List.length_cons, Nat.mul_succ, Nat.add_comm]

end LittleEndian

/-! ## Fields of a byte string -/

namespace Bytes

/-- The `width` bytes that start at `offset`. -/
def field (bytes : Bytes) (offset width : Nat) : Bytes := (bytes.drop offset).take width

/-- The byte at `offset`, zero past the end. -/
def byteAt (bytes : Bytes) (offset : Nat) : UInt8 := bytes.getD offset 0

/-- The 16-bit word at `offset`. -/
def word16At (bytes : Bytes) (offset : Nat) : UInt16 :=
  UInt16.ofNat (LittleEndian.decode (field bytes offset 2))

/-- The 32-bit word at `offset`. -/
def word32At (bytes : Bytes) (offset : Nat) : UInt32 :=
  UInt32.ofNat (LittleEndian.decode (field bytes offset 4))

/-- The 64-bit word at `offset`. -/
def word64At (bytes : Bytes) (offset : Nat) : UInt64 :=
  UInt64.ofNat (LittleEndian.decode (field bytes offset 8))

/-- The `count` consecutive 32-bit words that start at `offset`. -/
def words32At (bytes : Bytes) (offset count : Nat) : Vector UInt32 count :=
  ⟨((List.range count).map fun i => word32At bytes (offset + 4 * i)).toArray, by simp⟩

end Bytes

end LinkFabric
