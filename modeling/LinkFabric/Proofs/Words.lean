import LinkFabric.Datagram.Header

/-!
# Reading words back

A record is written as a concatenation of words and bytes, and read by offsets. To read at
an offset is to skip the parts before it and then to read the part that begins there; a
part that was written as a word gives the word. Both are rules for `simp`, so a layout
that is unfolded is read by calculation.

Main results:

* `Bytes.word16At_word16`, `Bytes.word32At_word32`, `Bytes.word64At_word64`: a word is read
  back from its bytes.
* `Bytes.word32At_zero_eq_iff`, `Bytes.word64At_zero_inj`: no other bytes give the word.
* `Bytes.toList_words32At`: a row of words is read back.
* `Datagram.split_eq_ok_iff`: a part of known length is cut off whole.
-/

namespace LinkFabric

namespace LittleEndian

/-- A number below the bound of its width is read back. -/
theorem decode_encode_of_lt {width n : Nat} (h : n < 1 <<< (8 * width)) :
    decode (encode width n) = n := by
  apply decode_encode
  rw [Nat.one_shiftLeft] at h
  rw [Nat.shiftRight_eq_div_pow]
  exact Nat.div_eq_of_lt h

/-- The number of some bytes is below the bound of their width. -/
theorem decode_take_lt {bytes : Bytes} {width : Nat} (h : width ≤ bytes.length) :
    decode (bytes.take width) < 1 <<< (8 * width) := by
  have hfits := shiftRight_decode (bytes.take width)
  rw [List.length_take_of_le h, Nat.shiftRight_eq_div_pow] at hfits
  rw [Nat.one_shiftLeft]
  exact (Nat.div_eq_zero_iff_lt (Nat.two_pow_pos _)).mp hfits

theorem encode_decode_take {bytes : Bytes} {width : Nat} (h : width ≤ bytes.length) :
    encode width (decode (bytes.take width)) = bytes.take width := by
  have hback := encode_decode (bytes.take width)
  rwa [List.length_take_of_le h] at hback

end LittleEndian

namespace Bytes

open LittleEndian

/-! ## Skipping what comes before -/

theorem field_append_right {xs : Bytes} {n : Nat} (h : xs.length ≤ n) (ys : Bytes)
    (width : Nat) : field (xs ++ ys) n width = field ys (n - xs.length) width := by
  unfold field
  rw [List.drop_append, List.drop_eq_nil_of_le h, List.nil_append]

theorem field_append_left {xs : Bytes} {width : Nat} (h : xs.length = width) (ys : Bytes) :
    field (xs ++ ys) 0 width = xs := by
  unfold field
  rw [List.drop_zero, ← h, List.take_left]

@[simp] theorem byteAt_cons_zero (b : UInt8) (ys : Bytes) : byteAt (b :: ys) 0 = b := rfl

@[simp] theorem byteAt_cons_succ (b : UInt8) (ys : Bytes) (n : Nat) :
    byteAt (b :: ys) (n + 1) = byteAt ys n := rfl

@[simp] theorem byteAt_append_right {xs : Bytes} {n : Nat} (h : xs.length ≤ n) (ys : Bytes) :
    byteAt (xs ++ ys) n = byteAt ys (n - xs.length) := by
  unfold byteAt
  rw [List.getD_eq_getElem?_getD, List.getD_eq_getElem?_getD, List.getElem?_append_right h]

@[simp] theorem word16At_cons_succ (b : UInt8) (ys : Bytes) (n : Nat) :
    word16At (b :: ys) (n + 1) = word16At ys n := rfl

@[simp] theorem word16At_append_right {xs : Bytes} {n : Nat} (h : xs.length ≤ n) (ys : Bytes) :
    word16At (xs ++ ys) n = word16At ys (n - xs.length) := by
  unfold word16At
  rw [field_append_right h]

@[simp] theorem word32At_cons_succ (b : UInt8) (ys : Bytes) (n : Nat) :
    word32At (b :: ys) (n + 1) = word32At ys n := rfl

@[simp] theorem word32At_append_right {xs : Bytes} {n : Nat} (h : xs.length ≤ n) (ys : Bytes) :
    word32At (xs ++ ys) n = word32At ys (n - xs.length) := by
  unfold word32At
  rw [field_append_right h]

@[simp] theorem word64At_append_right {xs : Bytes} {n : Nat} (h : xs.length ≤ n) (ys : Bytes) :
    word64At (xs ++ ys) n = word64At ys (n - xs.length) := by
  unfold word64At
  rw [field_append_right h]

@[simp] theorem words32At_append_right {xs : Bytes} {n : Nat} (h : xs.length ≤ n) (ys : Bytes)
    (count : Nat) : words32At (xs ++ ys) n count = words32At ys (n - xs.length) count := by
  unfold words32At
  congr 2
  apply List.map_congr_left
  intro i _
  rw [word32At_append_right (by omega), show n + 4 * i - xs.length = n - xs.length + 4 * i by omega]

@[simp] theorem words32At_cons_succ (b : UInt8) (ys : Bytes) (n count : Nat) :
    words32At (b :: ys) (n + 1) count = words32At ys n count :=
  words32At_append_right (show [b].length ≤ n + 1 by simp) ys count

/-! ## Fields of a part -/

theorem field_append_of_le {xs : Bytes} {offset width : Nat} (h : offset + width ≤ xs.length)
    (ys : Bytes) : field (xs ++ ys) offset width = field xs offset width := by
  unfold field
  rw [List.drop_append_of_le_length (by omega),
    List.take_append_of_le_length (by rw [List.length_drop]; omega)]

theorem byteAt_append_of_lt {xs : Bytes} {n : Nat} (h : n < xs.length) (ys : Bytes) :
    byteAt (xs ++ ys) n = byteAt xs n := by
  unfold byteAt
  rw [List.getD_eq_getElem?_getD, List.getD_eq_getElem?_getD, List.getElem?_append_left h]

theorem word32At_append_of_le {xs : Bytes} {n : Nat} (h : n + 4 ≤ xs.length) (ys : Bytes) :
    word32At (xs ++ ys) n = word32At xs n := by
  unfold word32At
  rw [field_append_of_le h]

theorem word64At_append_of_le {xs : Bytes} {n : Nat} (h : n + 8 ≤ xs.length) (ys : Bytes) :
    word64At (xs ++ ys) n = word64At xs n := by
  unfold word64At
  rw [field_append_of_le h]

theorem words32At_append_of_le {xs : Bytes} {n count : Nat} (h : n + 4 * count ≤ xs.length)
    (ys : Bytes) : words32At (xs ++ ys) n count = words32At xs n count := by
  unfold words32At
  congr 2
  refine List.map_congr_left fun i hi => ?_
  have hlt : i < count := List.mem_range.mp hi
  exact word32At_append_of_le (by omega) ys

/-! ## Words that begin here -/

@[simp] theorem word16At_word16 (w : UInt16) (ys : Bytes) : word16At (word16 w ++ ys) 0 = w := by
  unfold word16At
  rw [field_append_left (length_word16 w), word16, decode_encode_of_lt w.toNat_lt,
    UInt16.ofNat_toNat]

@[simp] theorem word32At_word32 (w : UInt32) (ys : Bytes) : word32At (word32 w ++ ys) 0 = w := by
  unfold word32At
  rw [field_append_left (length_word32 w), word32, decode_encode_of_lt w.toNat_lt,
    UInt32.ofNat_toNat]

@[simp] theorem word32At_word32_end (w : UInt32) : word32At (word32 w) 0 = w := by
  simpa using word32At_word32 w []

@[simp] theorem word64At_word64 (w : UInt64) (ys : Bytes) : word64At (word64 w ++ ys) 0 = w := by
  unfold word64At
  rw [field_append_left (length_word64 w), word64, decode_encode_of_lt w.toNat_lt,
    UInt64.ofNat_toNat]

@[simp] theorem word64At_word64_end (w : UInt64) : word64At (word64 w) 0 = w := by
  simpa using word64At_word64 w []

/-- A word is read exactly from the four bytes that it is written as. -/
theorem word32At_zero_eq_iff {bytes : Bytes} (h : 4 ≤ bytes.length) {w : UInt32} :
    word32At bytes 0 = w ↔ word32 w <+: bytes := by
  constructor
  · rintro rfl
    have hword : word32 (word32At bytes 0) = bytes.take 4 := by
      show encode 4 (UInt32.ofNat (decode (bytes.take 4))).toNat = bytes.take 4
      rw [UInt32.toNat_ofNat_of_lt' (decode_take_lt h), encode_decode_take h]
    rw [hword]
    exact List.take_prefix 4 bytes
  · rintro ⟨rest, rfl⟩
    exact word32At_word32 w rest

/-- Eight bytes are determined by the word that they make. -/
theorem word64At_zero_inj {xs ys : Bytes} (hx : 8 ≤ xs.length) (hy : 8 ≤ ys.length) :
    word64At xs 0 = word64At ys 0 ↔ xs.take 8 = ys.take 8 := by
  have hword : ∀ bytes : Bytes, 8 ≤ bytes.length → word64 (word64At bytes 0) = bytes.take 8 := by
    intro bytes h
    show encode 8 (UInt64.ofNat (decode (bytes.take 8))).toNat = bytes.take 8
    rw [UInt64.toNat_ofNat_of_lt' (decode_take_lt h), encode_decode_take h]
  constructor
  · intro h
    rw [← hword xs hx, h, hword ys hy]
  · intro h
    show UInt64.ofNat (decode (xs.take 8)) = UInt64.ofNat (decode (ys.take 8))
    rw [h]

/-- A row of words is read word by word. -/
theorem map_word32At_flatMap (ws : List UInt32) :
    (List.range ws.length).map (fun i => word32At (ws.flatMap word32) (0 + 4 * i)) = ws := by
  induction ws with
  | nil => rfl
  | cons w ws ih =>
    rw [List.length_cons, List.range_succ_eq_map, List.map_cons, List.map_map, List.flatMap_cons]
    refine List.cons_eq_cons.mpr ⟨word32At_word32 w _, ?_⟩
    refine Eq.trans (List.map_congr_left fun i _ => ?_) ih
    have hskip : (word32 w).length ≤ 0 + 4 * (i + 1) := by
      rw [length_word32]
      omega
    rw [Function.comp_apply, word32At_append_right hskip, length_word32,
      show 0 + 4 * (i + 1) - 4 = 0 + 4 * i by omega]

theorem toList_words32At {ws : List UInt32} {count : Nat} (h : ws.length = count) :
    (words32At (ws.flatMap word32) 0 count).toList = ws := by
  subst h
  exact map_word32At_flatMap ws

@[simp] theorem words32At_toList {count : Nat} (ws : Vector UInt32 count) :
    words32At (ws.toList.flatMap word32) 0 count = ws :=
  Vector.toList_inj.mp (toList_words32At ws.length_toList)

end Bytes

/-! ## Cutting off a part -/

namespace Datagram

theorem split_append {xs : Bytes} {n : Nat} (h : xs.length = n) (ys : Bytes) :
    split n (xs ++ ys) = .ok (xs, ys) := by
  subst h
  unfold split
  rw [if_neg (by simp), List.take_left, List.drop_left]

theorem split_eq_ok_iff {n : Nat} {bytes xs ys : Bytes} :
    split n bytes = .ok (xs, ys) ↔ bytes = xs ++ ys ∧ xs.length = n := by
  constructor
  · intro h
    unfold split at h
    split at h
    · cases h
    · rename_i hlong
      cases h
      refine ⟨(List.take_append_drop n bytes).symm, ?_⟩
      rw [List.length_take]
      omega
  · rintro ⟨rfl, hlength⟩
    exact split_append hlength ys

end Datagram

end LinkFabric
