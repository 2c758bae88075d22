import LinkFabric.Datagram.Beacon
import LinkFabric.Datagram.Message
import LinkFabric.Proofs.Words
import Mathlib.Data.List.Forall2
import Mathlib.Tactic.SplitIfs

/-!
# The grammar of datagrams

Anyone can send bytes to a station. Which byte strings it takes for a message is stated
here by a grammar that does not mention the decoders: a header with its fields at fixed
places, and a body that is cut into records. Links and bindings have records of one
length, a value's record says itself how long it is. No record is the beginning of
another, so a body can be cut in one way only, and the decoders cut it that way.

Main results:

* `Record.Reads.decodeAll_eq_ok_iff`: reading records to the end succeeds iff the bytes are
  a concatenation of records.
* `Record.Reads.cut_unique`: the records of a concatenation are determined by its bytes.
* `Header.decode_eq_ok_iff`: which bytes begin with a header.
* `Message.decodeBody_eq_ok_iff`: which bodies are read as which message.
* `Message.decode_accepts_grammar`: which byte strings are read, what they are read as, and
  which errors reading never meets.
-/

namespace LinkFabric

open LittleEndian Bytes

/-! ## Steps that may fail -/

theorem bind_eq_ok_iff {ε α β : Type} {x : Except ε α} {f : α → Except ε β} {b : β} :
    x >>= f = .ok b ↔ ∃ a, x = .ok a ∧ f a = .ok b := by
  cases x <;> simp [bind, Except.bind]

theorem map_eq_ok_iff {ε α β : Type} {x : Except ε α} {f : α → β} {b : β} :
    x.map f = .ok b ↔ ∃ a, x = .ok a ∧ f a = b := by
  cases x <;> simp [Except.map]

theorem exists_eq_append {bytes : Bytes} {n : Nat} (h : n ≤ bytes.length) :
    ∃ front rest, bytes = front ++ rest ∧ front.length = n :=
  ⟨bytes.take n, bytes.drop n, (List.take_append_drop n bytes).symm, List.length_take_of_le h⟩

/-- A code up to the last one in use has a meaning. -/
theorem exists_ofCode {α : Type} (ofCode? : UInt8 → Option α) {last : UInt8}
    (hused : ∀ k ≤ last.toNat, (ofCode? (UInt8.ofNat k)).isSome = true) {n : UInt8}
    (hn : n ≤ last) : ∃ x, ofCode? n = some x := by
  have hsome := hused n.toNat (UInt8.le_iff_toNat_le.mp hn)
  rw [UInt8.ofNat_toNat] at hsome
  exact Option.isSome_iff_exists.mp hsome

/-! ## Sequences of records -/

namespace Record

/-- Bytes are a concatenation of pieces of a shape. -/
def IsSequence (shape : Bytes → Prop) (bytes : Bytes) : Prop :=
  ∃ pieces : List Bytes, pieces.flatten = bytes ∧ ∀ piece ∈ pieces, shape piece

/-- Bytes are the records of some items, one for one and in order, and cannot be cut into
pieces of the shape of records in any other way. -/
def ConsistsOf {α : Type} (shape : Bytes → Prop) (Is : Bytes → α → Prop) (bytes : Bytes)
    (items : List α) : Prop :=
  ∃ pieces : List Bytes, List.Forall₂ Is pieces items ∧
    ∀ cut : List Bytes, (cut.flatten = bytes ∧ ∀ piece ∈ cut, shape piece) ↔ cut = pieces

/-- A decoder reads the records of a format. Its records are the pieces of a shape, and
`Is piece x` says that a piece stands for `x`. A record is cut off from the bytes after it, and
none is empty. -/
structure Reads {α : Type} (decode : Bytes → Except DatagramError (α × Bytes))
    (shape : Bytes → Prop) (Is : Bytes → α → Prop) : Prop where
  ok_iff : ∀ {bytes x rest},
    decode bytes = .ok (x, rest) ↔ ∃ piece, bytes = piece ++ rest ∧ Is piece x
  shape_iff : ∀ {piece}, shape piece ↔ ∃ x, Is piece x
  ne_nil : ∀ {piece}, shape piece → piece ≠ []

namespace Reads

variable {α : Type} {decode : Bytes → Except DatagramError (α × Bytes)} {shape : Bytes → Prop}
  {Is : Bytes → α → Prop}

theorem decode_append (h : Reads decode shape Is) {piece : Bytes} {x : α} (hx : Is piece x)
    (rest : Bytes) : decode (piece ++ rest) = .ok (x, rest) :=
  h.ok_iff.mpr ⟨piece, rfl, hx⟩

theorem eq_nil_of_flatten (h : Reads decode shape Is) {pieces : List Bytes}
    (hshape : ∀ piece ∈ pieces, shape piece) (hflatten : pieces.flatten = []) : pieces = [] := by
  cases pieces with
  | nil => rfl
  | cons piece pieces =>
    have hpiece : piece = [] := (List.append_eq_nil_iff.mp hflatten).1
    exact absurd hpiece (h.ne_nil (hshape piece List.mem_cons_self))

/-- What is read from the first piece determines the piece. -/
theorem cut_unique (h : Reads decode shape Is) {cut cut' : List Bytes}
    (hcut : ∀ piece ∈ cut, shape piece) (hcut' : ∀ piece ∈ cut', shape piece)
    (hflatten : cut.flatten = cut'.flatten) : cut = cut' := by
  induction cut generalizing cut' with
  | nil => exact (h.eq_nil_of_flatten hcut' hflatten.symm).symm
  | cons piece cut ih =>
    cases cut' with
    | nil => exact h.eq_nil_of_flatten hcut hflatten
    | cons piece' cut' =>
      obtain ⟨x, hx⟩ := h.shape_iff.mp (hcut piece List.mem_cons_self)
      obtain ⟨x', hx'⟩ := h.shape_iff.mp (hcut' piece' List.mem_cons_self)
      rw [List.flatten_cons, List.flatten_cons] at hflatten
      have hread := h.decode_append hx cut.flatten
      rw [hflatten, h.decode_append hx' cut'.flatten] at hread
      have hrest : cut.flatten = cut'.flatten := (Prod.mk.inj (Except.ok.inj hread)).2.symm
      rw [hrest] at hflatten
      rw [List.append_cancel_right hflatten,
        ih (fun p hp => hcut p (List.mem_cons_of_mem _ hp))
          (fun p hp => hcut' p (List.mem_cons_of_mem _ hp)) hrest]

theorem shape_of_forall₂ (h : Reads decode shape Is) {pieces : List Bytes} {xs : List α}
    (hpieces : List.Forall₂ Is pieces xs) : ∀ piece ∈ pieces, shape piece := by
  induction hpieces with
  | nil => exact fun _ hpiece => nomatch hpiece
  | cons hx _ ih => exact List.forall_mem_cons.mpr ⟨h.shape_iff.mpr ⟨_, hx⟩, ih⟩

theorem exists_forall₂ (h : Reads decode shape Is) {pieces : List Bytes}
    (hshape : ∀ piece ∈ pieces, shape piece) : ∃ xs, List.Forall₂ Is pieces xs := by
  induction pieces with
  | nil => exact ⟨[], .nil⟩
  | cons piece pieces ih =>
    obtain ⟨hpiece, hpieces⟩ := List.forall_mem_cons.mp hshape
    obtain ⟨x, hx⟩ := h.shape_iff.mp hpiece
    obtain ⟨xs, hxs⟩ := ih hpieces
    exact ⟨x :: xs, .cons hx hxs⟩

theorem decodeUpTo_nil (h : Reads decode shape Is) {fuel : Nat} {xs : List α} :
    decodeUpTo decode fuel [] = .ok xs ↔
      ∃ pieces : List Bytes, pieces.flatten = [] ∧ List.Forall₂ Is pieces xs := by
  rw [decodeUpTo, Except.ok.injEq]
  constructor
  · rintro rfl
    exact ⟨[], rfl, .nil⟩
  · rintro ⟨pieces, hflatten, hpieces⟩
    obtain rfl := h.eq_nil_of_flatten (h.shape_of_forall₂ hpieces) hflatten
    cases hpieces
    rfl

/-- Records use up the bytes before the fuel is used up. -/
theorem decodeUpTo_eq_ok_iff (h : Reads decode shape Is) {fuel : Nat} {bytes : Bytes}
    (hfuel : bytes.length ≤ fuel) {xs : List α} :
    decodeUpTo decode fuel bytes = .ok xs ↔
      ∃ pieces : List Bytes, pieces.flatten = bytes ∧ List.Forall₂ Is pieces xs := by
  induction fuel generalizing bytes xs with
  | zero =>
    obtain rfl := List.length_eq_zero_iff.mp (Nat.le_zero.mp hfuel)
    exact h.decodeUpTo_nil
  | succ fuel ih =>
    cases bytes with
    | nil => exact h.decodeUpTo_nil
    | cons b bytes =>
      rw [decodeUpTo, bind_eq_ok_iff]
      constructor
      · rintro ⟨⟨x, rest⟩, hx, hrest⟩
        obtain ⟨xs', hxs', heq⟩ := bind_eq_ok_iff.mp hrest
        obtain rfl : x :: xs' = xs := Except.ok.inj heq
        obtain ⟨piece, hbytes, hpiece⟩ := h.ok_iff.mp hx
        have hlonger := congrArg List.length hbytes
        have hpos := List.length_pos_iff.mpr (h.ne_nil (h.shape_iff.mpr ⟨x, hpiece⟩))
        rw [List.length_append] at hlonger
        obtain ⟨pieces, rfl, hpieces⟩ := (ih (by omega)).mp hxs'
        exact ⟨piece :: pieces, hbytes.symm, .cons hpiece hpieces⟩
      · rintro ⟨pieces, hflatten, hpieces⟩
        cases hpieces with
        | nil => cases hflatten
        | @cons piece x pieces xs hpiece hpieces =>
          have hpos := List.length_pos_iff.mpr (h.ne_nil (h.shape_iff.mpr ⟨x, hpiece⟩))
          have hlength := congrArg List.length hflatten
          rw [List.flatten_cons, List.length_append] at hlength
          refine ⟨(x, pieces.flatten), hflatten ▸ h.decode_append hpiece _, ?_⟩
          refine bind_eq_ok_iff.mpr ⟨xs, (ih (by omega)).mpr ⟨pieces, rfl, hpieces⟩, rfl⟩

theorem decodeAll_eq_ok_iff (h : Reads decode shape Is) {bytes : Bytes} {xs : List α} :
    decodeAll decode bytes = .ok xs ↔ ConsistsOf shape Is bytes xs := by
  rw [decodeAll, h.decodeUpTo_eq_ok_iff (Nat.le_refl _)]
  constructor
  · rintro ⟨pieces, rfl, hpieces⟩
    have hshape := h.shape_of_forall₂ hpieces
    refine ⟨pieces, hpieces, fun cut => ⟨?_, ?_⟩⟩
    · rintro ⟨hflatten, hcut⟩
      exact h.cut_unique hcut hshape hflatten
    · rintro rfl
      exact ⟨rfl, hshape⟩
  · rintro ⟨pieces, hpieces, hcut⟩
    exact ⟨pieces, ((hcut pieces).mpr rfl).1, hpieces⟩

theorem exists_decodeAll_iff (h : Reads decode shape Is) {bytes : Bytes} :
    (∃ xs, decodeAll decode bytes = .ok xs) ↔ IsSequence shape bytes := by
  constructor
  · rintro ⟨xs, hxs⟩
    obtain ⟨pieces, _, hcut⟩ := h.decodeAll_eq_ok_iff.mp hxs
    exact ⟨pieces, (hcut pieces).mpr rfl⟩
  · rintro ⟨pieces, rfl, hshape⟩
    obtain ⟨xs, hxs⟩ := h.exists_forall₂ hshape
    exact ⟨xs, (h.decodeUpTo_eq_ok_iff (Nat.le_refl _)).mpr ⟨pieces, rfl, hxs⟩⟩

end Reads

/-! ## The three kinds of record -/

/-- The record of a link: 48 bytes, of which the first two are a mode and an aggregation. -/
def LinkShape (piece : Bytes) : Prop :=
  piece.length = 48 ∧ piece.byteAt 0 ≤ 2 ∧ piece.byteAt 1 ≤ 4

/-- A record stands for a link. Its tags may be in any order and its rate out of bounds. -/
structure IsLink (piece : Bytes) (l : Link) : Prop where
  length : piece.length = 48
  mode : piece.byteAt 0 = l.mode.code
  aggregation : piece.byteAt 1 = l.aggregation.code
  rate : l.rate = .clamp (piece.word16At 2).toNat
  sourceKey : l.sourceKey = piece.word32At 4
  destKey : l.destKey = piece.word32At 8
  tag : l.tag = piece.word32At 12
  query : l.query = .ofSlots (piece.words32At 16 8)

/-- The record of a binding: 8 bytes, of which one has exactly one of two flags set. -/
def BindingShape (piece : Bytes) : Prop :=
  piece.length = 8 ∧
    ((piece.byteAt 6).toNat.testBit 0 = true ↔ (piece.byteAt 6).toNat.testBit 1 = false)

/-- A record stands for a binding. Of its flags only two count, and its last byte does not. -/
structure IsBinding (piece : Bytes) (b : Binding) : Prop where
  length : piece.length = 8
  key : b.key = piece.word32At 0
  rate : b.rate = piece.word16At 4
  role : piece.byteAt 6 &&& 0x03 = b.role.flag

/-- The record of a value: a key, an element type, a count, and as many bytes as the two ask
for. -/
def DatumShape (piece : Bytes) : Prop :=
  piece.byteAt 4 ≤ 10 ∧ ∀ type : ScalarType, type.code = piece.byteAt 4 →
    piece.length = 6 + type.size * (piece.byteAt 5).toNat

/-- A record stands for a value under its key. -/
structure IsDatum (piece : Bytes) (d : Datum) : Prop where
  length : piece.length = 6 + d.value.data.length
  key : d.key = piece.word32At 0
  type : piece.byteAt 4 = d.value.shape.type.code
  count : d.value.shape.count = piece.byteAt 5
  data : d.value.data = piece.drop 6

theorem reads_link : Reads decodeLink LinkShape IsLink where
  ok_iff := by
    intro bytes l rest
    constructor
    · intro h
      obtain ⟨⟨piece, rest'⟩, hsplit, hread⟩ := bind_eq_ok_iff.mp h
      obtain ⟨rfl, hlength⟩ := Datagram.split_eq_ok_iff.mp hsplit
      cases hmode : Mode.ofCode? (piece.byteAt 0) with
      | none => simp [hmode] at hread
      | some mode =>
        cases haggregation : Aggregation.ofCode? (piece.byteAt 1) with
        | none => simp [hmode, haggregation] at hread
        | some aggregation =>
          simp only [hmode, haggregation, Except.ok.injEq, Prod.mk.injEq] at hread
          obtain ⟨rfl, rfl⟩ := hread
          exact ⟨piece, rfl, hlength, Mode.ofCode?_eq_some_iff.mp hmode,
            Aggregation.ofCode?_eq_some_iff.mp haggregation, rfl, rfl, rfl, rfl, rfl⟩
    · rintro ⟨piece, rfl, h⟩
      have hlength : piece.length = linkLength := h.length
      unfold decodeLink
      rw [Datagram.split_append hlength]
      simp [bind, Except.bind, h.mode, h.aggregation, ← h.rate, ← h.sourceKey, ← h.destKey,
        ← h.tag, ← h.query]
  shape_iff := by
    intro piece
    constructor
    · rintro ⟨hlength, hmode, haggregation⟩
      obtain ⟨mode, hmode⟩ := exists_ofCode Mode.ofCode? (by decide) hmode
      obtain ⟨aggregation, haggregation⟩ :=
        exists_ofCode Aggregation.ofCode? (by decide) haggregation
      exact ⟨⟨mode, _, _, _, _, _, aggregation⟩, hlength, Mode.ofCode?_eq_some_iff.mp hmode,
        Aggregation.ofCode?_eq_some_iff.mp haggregation, rfl, rfl, rfl, rfl, rfl⟩
    · rintro ⟨l, h⟩
      refine ⟨h.length, ?_, ?_⟩
      · rw [h.mode]
        cases l.mode <;> decide
      · rw [h.aggregation]
        cases l.aggregation <;> decide
  ne_nil := by
    rintro piece ⟨hlength, _⟩ rfl
    cases hlength

/-- Of the two low bits exactly one is set iff the two say what the role is. -/
theorem exists_role_iff (flags : UInt8) :
    (flags.toNat.testBit 0 = true ↔ flags.toNat.testBit 1 = false) ↔
      ∃ role : BindingRole, flags &&& 0x03 = role.flag := by
  have hbits : ∀ n < 256,
      ((UInt8.ofNat n).toNat.testBit 0 = true ↔ (UInt8.ofNat n).toNat.testBit 1 = false) ↔
        UInt8.ofNat n &&& 0x03 = BindingRole.source.flag ∨
          UInt8.ofNat n &&& 0x03 = BindingRole.sink.flag := by
    decide +kernel
  have hflags := hbits flags.toNat flags.toNat_lt
  rw [UInt8.ofNat_toNat] at hflags
  rw [hflags]
  constructor
  · rintro (h | h)
    · exact ⟨.source, h⟩
    · exact ⟨.sink, h⟩
  · rintro ⟨role, h⟩
    cases role with
    | source => exact .inl h
    | sink => exact .inr h

theorem reads_binding : Reads decodeBinding BindingShape IsBinding where
  ok_iff := by
    intro bytes b rest
    constructor
    · intro h
      obtain ⟨⟨piece, rest'⟩, hsplit, hread⟩ := bind_eq_ok_iff.mp h
      obtain ⟨rfl, hlength⟩ := Datagram.split_eq_ok_iff.mp hsplit
      cases hrole : BindingRole.ofFlags? (piece.byteAt 6) with
      | none => simp [hrole] at hread
      | some role =>
        simp only [hrole, Except.ok.injEq, Prod.mk.injEq] at hread
        obtain ⟨rfl, rfl⟩ := hread
        exact ⟨piece, rfl, hlength, rfl, rfl, BindingRole.ofFlags?_eq_some_iff.mp hrole⟩
    · rintro ⟨piece, rfl, h⟩
      have hlength : piece.length = bindingLength := h.length
      unfold decodeBinding
      rw [Datagram.split_append hlength]
      simp [bind, Except.bind, BindingRole.ofFlags?_eq_some_iff.mpr h.role, ← h.key, ← h.rate]
  shape_iff := by
    intro piece
    rw [BindingShape, exists_role_iff]
    constructor
    · rintro ⟨hlength, role, hrole⟩
      exact ⟨⟨_, _, role⟩, hlength, rfl, rfl, hrole⟩
    · rintro ⟨b, h⟩
      exact ⟨h.length, b.role, h.role⟩
  ne_nil := by
    rintro piece ⟨hlength, _⟩ rfl
    cases hlength

theorem reads_datum : Reads decodeDatum DatumShape IsDatum where
  ok_iff := by
    intro bytes d rest
    constructor
    · intro h
      obtain ⟨⟨front, rest'⟩, hsplit, hread⟩ := bind_eq_ok_iff.mp h
      obtain ⟨rfl, hfront⟩ := Datagram.split_eq_ok_iff.mp hsplit
      replace hfront : front.length = 6 := hfront
      cases htype : ScalarType.ofCode? (front.byteAt 4) with
      | none => simp [htype] at hread
      | some type =>
        simp only [htype] at hread
        obtain ⟨⟨data, rest''⟩, hsplit', hread'⟩ := bind_eq_ok_iff.mp hread
        obtain ⟨rfl, hdata⟩ := Datagram.split_eq_ok_iff.mp hsplit'
        simp only [Value.ofBytes, hdata, dite_true, Except.ok.injEq, Prod.mk.injEq] at hread'
        obtain ⟨rfl, rfl⟩ := hread'
        refine ⟨front ++ data, (List.append_assoc _ _ _).symm, ?_, ?_, ?_, ?_, ?_⟩
        · rw [List.length_append, hfront]
        · rw [word32At_append_of_le (by omega)]
        · rw [byteAt_append_of_lt (by omega), ScalarType.ofCode?_eq_some_iff.mp htype]
        · rw [byteAt_append_of_lt (by omega)]
        · rw [← hfront, List.drop_left]
    · rintro ⟨piece, rfl, h⟩
      obtain ⟨front, rfl, hfront⟩ : ∃ front, piece = front ++ d.value.data ∧ front.length = 6 := by
        have hlength := h.length
        refine ⟨piece.take 6, by rw [h.data, List.take_append_drop], ?_⟩
        rw [List.length_take]
        omega
      have hkey := h.key
      have htype := h.type
      have hcount := h.count
      rw [word32At_append_of_le (by omega)] at hkey
      rw [byteAt_append_of_lt (by omega)] at htype hcount
      have hdata : d.value.data.length = Shape.byteLength ⟨d.value.shape.type, d.value.shape.count⟩ :=
        d.value.length_data
      unfold decodeDatum
      rw [List.append_assoc, Datagram.split_append (n := datumHeaderLength) hfront]
      simp only [bind, Except.bind, htype, ScalarType.ofCode?_code, ← hcount, ← hkey]
      rw [Datagram.split_append hdata]
      simp [Value.ofBytes, hdata]
  shape_iff := by
    intro piece
    constructor
    · rintro ⟨hcode, hlength⟩
      obtain ⟨type, htype⟩ := exists_ofCode ScalarType.ofCode? (by decide) hcode
      have hcode := ScalarType.ofCode?_eq_some_iff.mp htype
      have hlength := hlength type hcode.symm
      have hdata : (piece.drop 6).length = Shape.byteLength ⟨type, piece.byteAt 5⟩ := by
        rw [List.length_drop, hlength, Nat.add_sub_cancel_left]
        rfl
      exact ⟨⟨_, ⟨_, _, hdata⟩⟩, by rw [hdata, hlength]; rfl, rfl, hcode, rfl, rfl⟩
    · rintro ⟨d, h⟩
      refine ⟨?_, fun type htype => ?_⟩
      · rw [h.type]
        cases d.value.shape.type <;> decide
      · rw [h.type] at htype
        have hsame := ScalarType.ofCode?_code type
        rw [htype, ScalarType.ofCode?_code, Option.some.injEq] at hsame
        rw [h.length, d.value.length_data, Shape.byteLength, h.count, hsame]
  ne_nil := by
    rintro piece ⟨_, hlength⟩ rfl
    have hsix := hlength .bool rfl
    rw [List.length_nil] at hsix
    omega

end Record

/-! ## Headers -/

/-- Bytes begin with a header: the word of the family, the version, and the fields of the
header at their places. -/
structure IsHeader (bytes : Bytes) (h : Header) : Prop where
  long : 20 ≤ bytes.length
  magic : word32 Family.link.magic <+: bytes
  version : bytes.byteAt 5 = 1
  kind : bytes.byteAt 4 = h.kind.code
  flags : h.flags = bytes.byteAt 6
  origin : h.origin = bytes.word64At 8
  realm : h.realm = bytes.word32At 16

theorem Datagram.decodeCommon_eq_ok_iff {family : Family} {bytes rest : Bytes}
    {kind : MessageKind} {flags : UInt8} :
    decodeCommon family bytes = .ok ((kind, flags), rest) ↔
      ∃ common, bytes = common ++ rest ∧ common.length = 8 ∧ word32 family.magic <+: common ∧
        common.byteAt 5 = 1 ∧ common.byteAt 4 = kind.code ∧ flags = common.byteAt 6 := by
  constructor
  · intro h
    obtain ⟨⟨common, rest'⟩, hsplit, hread⟩ := bind_eq_ok_iff.mp h
    obtain ⟨rfl, hlength⟩ := split_eq_ok_iff.mp hsplit
    replace hlength : common.length = 8 := hlength
    simp only at hread
    split_ifs at hread with hmagic hversion
    cases hkind : MessageKind.ofCode? (common.byteAt 4) with
    | none => simp [hkind] at hread
    | some kind =>
      simp only [hkind, Except.ok.injEq, Prod.mk.injEq] at hread
      obtain ⟨⟨rfl, rfl⟩, rfl⟩ := hread
      exact ⟨common, rfl, hlength, (word32At_zero_eq_iff (by omega)).mp (not_not.mp hmagic),
        not_not.mp hversion, MessageKind.ofCode?_eq_some_iff.mp hkind, rfl⟩
  · rintro ⟨common, rfl, hlength, hmagic, hversion, hkind, rfl⟩
    have hword := (word32At_zero_eq_iff (by omega)).mpr hmagic
    unfold decodeCommon
    rw [split_append (n := commonLength) hlength]
    simp [bind, Except.bind, hword, hversion, version, hkind]

/-- A header is read from the first 20 bytes. -/
theorem Header.decode_eq_ok_iff {bytes body : Bytes} {h : Header} :
    Header.decode bytes = .ok (h, body) ↔ IsHeader bytes h ∧ body = bytes.drop 20 := by
  have hdrop : ∀ {common sender rest : Bytes}, common.length = 8 → sender.length = 12 →
      (common ++ (sender ++ rest)).drop 20 = rest := by
    intro common sender rest hcommon hsender
    rw [← List.append_assoc]
    exact List.drop_left' (by rw [List.length_append, hcommon, hsender])
  constructor
  · intro hdecode
    obtain ⟨⟨⟨kind, flags⟩, rest⟩, hcommon, hrest⟩ := bind_eq_ok_iff.mp hdecode
    obtain ⟨common, rfl, hlength, hmagic, hversion, hkind, rfl⟩ :=
      Datagram.decodeCommon_eq_ok_iff.mp hcommon
    obtain ⟨⟨sender, rest'⟩, hsplit, hread⟩ := bind_eq_ok_iff.mp hrest
    obtain ⟨rfl, hsender⟩ := Datagram.split_eq_ok_iff.mp hsplit
    replace hsender : sender.length = 12 := hsender
    obtain ⟨rfl, rfl⟩ := Prod.mk.inj (Except.ok.inj hread)
    refine ⟨⟨?_, ?_, ?_, ?_, ?_, ?_, ?_⟩, (hdrop hlength hsender).symm⟩
    · rw [List.length_append, List.length_append]
      omega
    · exact hmagic.trans (List.prefix_append _ _)
    · rw [byteAt_append_of_lt (by omega), hversion]
    · rw [byteAt_append_of_lt (by omega), hkind]
    · rw [byteAt_append_of_lt (by omega)]
    · rw [word64At_append_right (by omega), hlength, word64At_append_of_le (by omega)]
    · rw [word32At_append_right (by omega), hlength, word32At_append_of_le (by omega)]
  · rintro ⟨⟨hlong, hmagic, hversion, hkind, hflags, horigin, hrealm⟩, rfl⟩
    obtain ⟨common, rest, rfl, hlength⟩ := exists_eq_append (n := 8) (by omega : 8 ≤ bytes.length)
    rw [List.length_append] at hlong
    obtain ⟨sender, body, rfl, hsender⟩ := exists_eq_append (n := 12) (by omega : 12 ≤ rest.length)
    have hprefix : word32 Family.link.magic <+: common :=
      List.prefix_of_prefix_length_le hmagic (List.prefix_append _ _)
        (by rw [length_word32]; omega)
    rw [byteAt_append_of_lt (by omega)] at hversion hkind hflags
    rw [word64At_append_right (by omega), word64At_append_of_le (by omega), hlength] at horigin
    rw [word32At_append_right (by omega), word32At_append_of_le (by omega), hlength] at hrealm
    have hcommon : Datagram.decodeCommon .link (common ++ (sender ++ body)) =
        .ok ((h.kind, h.flags), sender ++ body) :=
      Datagram.decodeCommon_eq_ok_iff.mpr
        ⟨common, rfl, hlength, hprefix, hversion, hkind, hflags⟩
    refine bind_eq_ok_iff.mpr ⟨_, hcommon, bind_eq_ok_iff.mpr ⟨(sender, body), ?_, ?_⟩⟩
    · exact Datagram.split_append hsender body
    · show Except.ok (Header.mk h.kind h.flags (sender.word64At (8 - 8)) (sender.word32At (16 - 8)),
        body) = _
      rw [hdrop hlength hsender, ← horigin, ← hrealm]

/-! ## Messages -/

namespace Message

open Record

/-- The body of a datagram stands for a message. -/
def IsBody (header : Header) (body : Bytes) : Message → Prop
  | .advert links => header.kind = .advert ∧ ConsistsOf LinkShape IsLink body links
  | .bind first bindings => header.kind = .bind ∧ first = (header.flags &&& 0x01 != 0) ∧
      ConsistsOf BindingShape IsBinding body bindings
  | .data records => header.kind = .data ∧ ConsistsOf DatumShape IsDatum body records
  | .heartbeat h => header.kind = .heartbeat ∧ 36 ≤ body.length ∧
      h = ⟨body.word32At 0, (body.words32At 4 8).toList.filter (· ≠ 0)⟩

/-- Bytes after the slots of a heartbeat are not looked at. -/
theorem decodeHeartbeat_eq_ok_iff {body : Bytes} {h : Heartbeat} :
    decodeHeartbeat body = .ok h ↔ 36 ≤ body.length ∧
      h = ⟨body.word32At 0, (body.words32At 4 8).toList.filter (· ≠ 0)⟩ := by
  constructor
  · intro hdecode
    obtain ⟨⟨front, rest⟩, hsplit, hread⟩ := bind_eq_ok_iff.mp hdecode
    obtain ⟨rfl, hfront⟩ := Datagram.split_eq_ok_iff.mp hsplit
    replace hfront : front.length = 36 := hfront
    rw [word32At_append_of_le (by omega), words32At_append_of_le (by omega), List.length_append]
    exact ⟨by omega, (Except.ok.inj hread).symm⟩
  · rintro ⟨hlong, rfl⟩
    obtain ⟨front, rest, rfl, hfront⟩ := exists_eq_append (n := 36) hlong
    rw [word32At_append_of_le (by omega), words32At_append_of_le (by omega)]
    exact bind_eq_ok_iff.mpr ⟨(front, rest), Datagram.split_append hfront rest, rfl⟩

theorem decodeBody_eq_ok_iff {header : Header} {body : Bytes} {m : Message} :
    decodeBody header body = .ok m ↔ IsBody header body m := by
  unfold decodeBody
  cases hkind : header.kind with
  | announce => cases m <;> simp [IsBody, hkind]
  | advert =>
    simp only [map_eq_ok_iff, reads_link.decodeAll_eq_ok_iff]
    cases m <;> simp [IsBody, hkind]
  | bind =>
    simp only [map_eq_ok_iff, reads_binding.decodeAll_eq_ok_iff]
    cases m <;> simp [IsBody, hkind, firstFlag, and_comm, eq_comm]
  | data =>
    simp only [map_eq_ok_iff, reads_datum.decodeAll_eq_ok_iff]
    cases m <;> simp [IsBody, hkind]
  | heartbeat =>
    simp only [map_eq_ok_iff, decodeHeartbeat_eq_ok_iff]
    cases m <;> simp [IsBody, hkind, eq_comm]

theorem accept_eq_ok_iff {station : Station} {header : Header} :
    station.accept header = .ok () ↔
      header.origin ≠ station.device ∧ header.realm = station.realm := by
  unfold Station.accept
  split_ifs with hown hforeign <;> simp_all

theorem decode_eq_ok_iff {station : Station} {bytes : Bytes} {header : Header} {m : Message} :
    decode station bytes = .ok (header, m) ↔
      IsHeader bytes header ∧ header.origin ≠ station.device ∧ header.realm = station.realm ∧
        IsBody header (bytes.drop 20) m := by
  constructor
  · intro h
    obtain ⟨⟨header', body⟩, hfront, hrest⟩ := bind_eq_ok_iff.mp h
    obtain ⟨hheader, rfl⟩ := Header.decode_eq_ok_iff.mp hfront
    obtain ⟨_, haccept, hread⟩ := bind_eq_ok_iff.mp hrest
    obtain ⟨m', hbody, heq⟩ := bind_eq_ok_iff.mp hread
    obtain ⟨rfl, rfl⟩ := Prod.mk.inj (Except.ok.inj heq)
    obtain ⟨horigin, hrealm⟩ := accept_eq_ok_iff.mp haccept
    exact ⟨hheader, horigin, hrealm, decodeBody_eq_ok_iff.mp hbody⟩
  · rintro ⟨hheader, horigin, hrealm, hbody⟩
    refine bind_eq_ok_iff.mpr ⟨_, Header.decode_eq_ok_iff.mpr ⟨hheader, rfl⟩, ?_⟩
    refine bind_eq_ok_iff.mpr ⟨(), accept_eq_ok_iff.mpr ⟨horigin, hrealm⟩, ?_⟩
    exact bind_eq_ok_iff.mpr ⟨m, decodeBody_eq_ok_iff.mpr hbody, rfl⟩

/-! ## The grammar -/

/-- The bodies that go with the code of a kind of message. -/
def BodyShape (code : UInt8) (body : Bytes) : Prop :=
  code = 0x10 ∧ IsSequence LinkShape body ∨ code = 0x11 ∧ IsSequence BindingShape body ∨
    code = 0x12 ∧ IsSequence DatumShape body ∨ code = 0x13 ∧ 36 ≤ body.length

/-- The byte strings that a station takes for messages. -/
structure Grammar (station : Station) (bytes : Bytes) : Prop where
  long : 20 ≤ bytes.length
  magic : word32 0x484C4B4C <+: bytes
  version : bytes.byteAt 5 = 1
  origin : bytes.word64At 8 ≠ station.device
  realm : bytes.word32At 16 = station.realm
  body : BodyShape (bytes.byteAt 4) (bytes.drop 20)

theorem exists_isBody_iff (header : Header) (body : Bytes) :
    (∃ m, IsBody header body m) ↔ BodyShape header.kind.code body := by
  simp only [← decodeBody_eq_ok_iff, decodeBody, BodyShape]
  cases header.kind with
  | announce => simp [MessageKind.code]
  | advert => simp [MessageKind.code, map_eq_ok_iff, reads_link.exists_decodeAll_iff]
  | bind => simp [MessageKind.code, map_eq_ok_iff, reads_binding.exists_decodeAll_iff]
  | data => simp [MessageKind.code, map_eq_ok_iff, reads_datum.exists_decodeAll_iff]
  | heartbeat => simp [MessageKind.code, map_eq_ok_iff, decodeHeartbeat_eq_ok_iff]

/-- Bytes are read as some message iff they are in the grammar. -/
theorem exists_decode_iff {station : Station} {bytes : Bytes} :
    (∃ header m, decode station bytes = .ok (header, m)) ↔ Grammar station bytes := by
  simp only [decode_eq_ok_iff]
  constructor
  · rintro ⟨header, m, hheader, horigin, hrealm, hbody⟩
    refine ⟨hheader.long, hheader.magic, hheader.version, ?_, ?_, ?_⟩
    · rw [← hheader.origin]
      exact horigin
    · rw [← hheader.realm]
      exact hrealm
    · rw [hheader.kind]
      exact (exists_isBody_iff header _).mp ⟨m, hbody⟩
  · rintro ⟨hlong, hmagic, hversion, horigin, hrealm, hbody⟩
    obtain ⟨kind, hkind⟩ : ∃ kind : MessageKind, bytes.byteAt 4 = kind.code := by
      rcases hbody with ⟨hcode, _⟩ | ⟨hcode, _⟩ | ⟨hcode, _⟩ | ⟨hcode, _⟩
      · exact ⟨.advert, hcode⟩
      · exact ⟨.bind, hcode⟩
      · exact ⟨.data, hcode⟩
      · exact ⟨.heartbeat, hcode⟩
    rw [hkind] at hbody
    obtain ⟨m, hm⟩ := (exists_isBody_iff
      ⟨kind, bytes.byteAt 6, bytes.word64At 8, bytes.word32At 16⟩ _).mpr hbody
    exact ⟨_, m, ⟨hlong, hmagic, hversion, hkind, rfl, rfl, rfl⟩, horigin, hrealm, hm⟩

end Message

/-! ## Errors of reading -/

/-- The errors of building a message or a value. -/
def DatagramError.isOfBuilding : DatagramError → Bool
  | .oversized _ _ | .link (.tooManyTags _) | .link (.valueLength _ _) => true
  | _ => false

/-- If a step fails, it does so for what it read and not for what it builds. -/
def FailsAsReader {α : Type} (x : Except DatagramError α) : Prop :=
  ∀ e, x = .error e → e.isOfBuilding = false

namespace FailsAsReader

variable {α β : Type}

theorem ok (a : α) : FailsAsReader (.ok a) := nofun

theorem error {e : DatagramError} (h : e.isOfBuilding = false) :
    FailsAsReader (.error e : Except DatagramError α) := by
  rintro _ ⟨⟩
  exact h

theorem bind {x : Except DatagramError α} {f : α → Except DatagramError β}
    (hx : FailsAsReader x) (hf : ∀ a, x = .ok a → FailsAsReader (f a)) :
    FailsAsReader (x >>= f) := by
  cases x with
  | error e => exact error (hx e rfl)
  | ok a => exact hf a rfl

theorem map {x : Except DatagramError α} (hx : FailsAsReader x) (f : α → β) :
    FailsAsReader (x.map f) := by
  cases x with
  | error e => exact error (hx e rfl)
  | ok a => exact ok (f a)

theorem split (n : Nat) (bytes : Bytes) : FailsAsReader (Datagram.split n bytes) := by
  unfold Datagram.split
  split_ifs
  · exact error rfl
  · exact ok _

theorem decodeHeader (bytes : Bytes) : FailsAsReader (Header.decode bytes) := by
  refine bind (bind (split _ _) ?_) fun _ _ => bind (split _ _) fun _ _ => ok _
  rintro ⟨common, rest⟩ -
  dsimp only
  split_ifs
  · exact error rfl
  · exact error rfl
  · cases MessageKind.ofCode? (common.byteAt 4) with
    | none => exact error rfl
    | some kind => exact ok _

theorem accept (station : Station) (header : Header) :
    FailsAsReader (station.accept header) := by
  unfold Station.accept
  split_ifs
  · exact error rfl
  · exact error rfl
  · exact ok _

theorem decodeLink (bytes : Bytes) : FailsAsReader (Record.decodeLink bytes) := by
  refine bind (split _ _) ?_
  rintro ⟨piece, rest⟩ -
  dsimp only
  cases Mode.ofCode? (piece.byteAt 0) with
  | none => exact error rfl
  | some mode =>
    dsimp only
    cases Aggregation.ofCode? (piece.byteAt 1) with
    | none => exact error rfl
    | some aggregation => exact ok _

theorem decodeBinding (bytes : Bytes) : FailsAsReader (Record.decodeBinding bytes) := by
  refine bind (split _ _) ?_
  rintro ⟨piece, rest⟩ -
  dsimp only
  cases BindingRole.ofFlags? (piece.byteAt 6) with
  | none => exact error rfl
  | some role => exact ok _

/-- The bytes of a value are cut off by the length that they must have. -/
theorem decodeDatum (bytes : Bytes) : FailsAsReader (Record.decodeDatum bytes) := by
  refine bind (split _ _) ?_
  rintro ⟨front, rest⟩ -
  dsimp only
  cases ScalarType.ofCode? (front.byteAt 4) with
  | none => exact error rfl
  | some type =>
    refine bind (split _ _) ?_
    rintro ⟨data, rest'⟩ hsplit
    have hdata := (Datagram.split_eq_ok_iff.mp hsplit).2
    simp only [Value.ofBytes, hdata, dite_true]
    exact ok _

theorem decodeUpTo {decode : Bytes → Except DatagramError (α × Bytes)}
    (hdecode : ∀ bytes, FailsAsReader (decode bytes)) (fuel : Nat) (bytes : Bytes) :
    FailsAsReader (Record.decodeUpTo decode fuel bytes) := by
  induction fuel generalizing bytes with
  | zero => cases bytes <;> exact ok _
  | succ fuel ih =>
    cases bytes with
    | nil => exact ok _
    | cons b bytes => exact bind (hdecode _) fun _ _ => bind (ih _) fun _ _ => ok _

theorem decodeBody (header : Header) (body : Bytes) :
    FailsAsReader (Message.decodeBody header body) := by
  unfold Message.decodeBody
  cases header.kind with
  | announce => exact error rfl
  | advert => exact (decodeUpTo decodeLink _ _).map _
  | bind => exact (decodeUpTo decodeBinding _ _).map _
  | data => exact (decodeUpTo decodeDatum _ _).map _
  | heartbeat => exact (bind (split _ _) fun _ _ => ok _).map _

theorem decode (station : Station) (bytes : Bytes) :
    FailsAsReader (Message.decode station bytes) :=
  bind (decodeHeader bytes) fun _ _ => bind (accept station _) fun _ _ =>
    bind (decodeBody _ _) fun _ _ => ok _

end FailsAsReader

/-! ## What is accepted -/

/-- A beacon begins with the word of the other family. -/
theorem Beacon.magic_of_decode {bytes : Bytes} {b : Beacon} (h : Beacon.decode bytes = .ok b) :
    word32 Family.election.magic <+: bytes := by
  obtain ⟨⟨⟨kind, flags⟩, rest⟩, hcommon, _⟩ := bind_eq_ok_iff.mp h
  obtain ⟨common, rfl, _, hmagic, _⟩ := Datagram.decodeCommon_eq_ok_iff.mp hcommon
  exact hmagic.trans (List.prefix_append _ _)

namespace Message

theorem Grammar.not_beacon {station : Station} {bytes : Bytes} (h : Grammar station bytes)
    (b : Beacon) : Beacon.decode bytes ≠ .ok b := by
  intro hbeacon
  have hprefix := List.prefix_of_prefix_length_le h.magic (Beacon.magic_of_decode hbeacon)
    (by simp)
  have hsame := hprefix.eq_of_length (by rw [length_word32, length_word32])
  exact absurd hsame (by decide)

/-- A station reads a message from exactly the byte strings of the grammar, and anything else
is an error. A message that is read has the header that the first 20 bytes stand for and
the records that the rest is cut into, one for one and in order, with nothing left. An
error is never about too many tags or the length of a value, and no byte string is read
as a beacon too. -/
theorem decode_accepts_grammar (station : Station) (bytes : Bytes) :
    ((∃ header m, decode station bytes = .ok (header, m)) ↔ Grammar station bytes) ∧
    ((∃ e, decode station bytes = .error e) ↔ ¬ Grammar station bytes) ∧
    (∀ header m, decode station bytes = .ok (header, m) →
      IsHeader bytes header ∧ IsBody header (bytes.drop 20) m) ∧
    (∀ count, decode station bytes ≠ .error (.link (.tooManyTags count))) ∧
    (∀ expected actual, decode station bytes ≠ .error (.link (.valueLength expected actual))) ∧
    ¬ ((∃ header m, decode station bytes = .ok (header, m)) ∧ ∃ b, Beacon.decode bytes = .ok b) := by
  have hreader := FailsAsReader.decode station bytes
  refine ⟨exists_decode_iff, ?_, ?_, ?_, ?_, ?_⟩
  · rw [← exists_decode_iff]
    cases decode station bytes with
    | error e => simp
    | ok p => simp [Prod.exists.symm]
  · intro header m h
    obtain ⟨hheader, _, _, hbody⟩ := decode_eq_ok_iff.mp h
    exact ⟨hheader, hbody⟩
  · intro count h
    exact absurd (hreader _ h) (by simp [DatagramError.isOfBuilding])
  · intro expected actual h
    exact absurd (hreader _ h) (by simp [DatagramError.isOfBuilding])
  · rintro ⟨hread, b, hb⟩
    exact (exists_decode_iff.mp hread).not_beacon b hb

/-- A boolean and two 16-bit words in one datagram. The body is cut into 7 and 10 bytes, and
without its last byte the datagram is in the grammar no more. -/
theorem two_values_in_grammar :
    let values : List Datum :=
      [⟨1, ⟨⟨.bool, 1⟩, [1], rfl⟩⟩, ⟨2, ⟨⟨.u16, 2⟩, [7, 0, 8, 0], rfl⟩⟩]
    let bytes := (Header.mk .data 0 5 3).encode ++
      ([1, 0, 0, 0, 0, 1, 1] ++ [2, 0, 0, 0, 3, 2, 7, 0, 8, 0])
    Grammar ⟨4, 3⟩ bytes ∧ ¬ Grammar ⟨4, 3⟩ bytes.dropLast ∧
    Record.ConsistsOf Record.DatumShape Record.IsDatum (bytes.drop 20) values := by
  intro values bytes
  have hread : decode ⟨4, 3⟩ bytes = .ok (⟨.data, 0, 5, 3⟩, .data values) := by decide +kernel
  have hcut : decode ⟨4, 3⟩ bytes.dropLast = .error (.truncated 4 3) := by decide +kernel
  obtain ⟨haccepts, _, hrecords, _⟩ := decode_accepts_grammar ⟨4, 3⟩ bytes
  refine ⟨haccepts.mp ⟨_, _, hread⟩, ?_, (hrecords _ _ hread).2.2⟩
  exact (decode_accepts_grammar ⟨4, 3⟩ bytes.dropLast).2.1.mp ⟨_, hcut⟩

end Message

end LinkFabric
