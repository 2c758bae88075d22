import LinkFabric.Proofs.DataPacking
import LinkFabric.Proofs.Handover

/-!
# Every datagram has a normal form

A station may read what no station of the fleet would write: tags out of order or repeated,
rates out of bounds, flags without a meaning, bytes after a heartbeat. To write the message
that was read, in the name of its sender, gives a datagram in which all of this is put
right. It says the same, and to read and write it again changes nothing. What the encoders
write is of this form from the start, and values are of it in any case.

Main results:

* `Packing.pack_of_fits`: what fits one group is packed into one.
* `Record.IsDatum.eq_encodeDatum`: a value has one record only.
* `Message.Whole.carries`: a whole message is written as one datagram, which carries it.
* `Message.whole_of_decode`, `Message.exists_whole_of_mem_encode`: what is read from a datagram
  of bounded length is whole, and what is written is made of whole messages.
* `Message.reencoding_normalises`: the normal form of a datagram.
-/

namespace LinkFabric

/-! ## Groups that are whole -/

namespace Packing

variable {α β : Type} {size : α → Nat} {budget : Nat} {written : α → List β}

/-- What fits one group is packed into one. -/
theorem pack_of_fits (hsize : ∀ x, size x = (written x).length) {items : List α}
    (hne : items ≠ []) (hfits : (items.flatMap written).length ≤ budget) :
    pack size budget items = [items] := by
  have hflatten := flatten_pack size budget items
  have hone := length_pack_le_one hsize hfits
  match hpack : pack size budget items with
  | [] =>
    rw [hpack] at hflatten
    exact absurd hflatten.symm hne
  | [group] =>
    rw [hpack, List.flatten_singleton] at hflatten
    rw [hflatten]
  | _ :: _ :: _ =>
    rw [hpack, List.length_cons, List.length_cons] at hone
    omega

end Packing

/-! ## Sequences of records -/

namespace Record

/-- Records of one length take as many bytes as there are items. -/
theorem ConsistsOf.length_eq {α : Type} {shape : Bytes → Prop} {Is : Bytes → α → Prop}
    {bytes : Bytes} {items : List α} (h : ConsistsOf shape Is bytes items) {width : Nat}
    (hwidth : ∀ piece x, Is piece x → piece.length = width) :
    bytes.length = width * items.length := by
  obtain ⟨pieces, hpieces, hcut⟩ := h
  rw [← ((hcut pieces).mpr rfl).1]
  clear hcut
  induction hpieces with
  | nil => rfl
  | cons hpiece _ ih =>
    rw [List.flatten_cons, List.length_append, ih, hwidth _ _ hpiece, List.length_cons,
      Nat.mul_succ, Nat.add_comm]

/-- No two records stand for the same value under the same key. -/
theorem IsDatum.eq_encodeDatum {piece : Bytes} {d : Datum} (h : IsDatum piece d) :
    piece = encodeDatum d := by
  have hlong : 6 ≤ piece.length := by
    rw [h.length]
    omega
  obtain ⟨rest, rfl⟩ := (Bytes.word32At_zero_eq_iff (by omega)).mp h.key.symm
  have htype := h.type
  have hcount := h.count
  have hdata := h.data
  rw [List.length_append, LittleEndian.length_word32] at hlong
  match rest with
  | code :: count :: data =>
    simp only [Bytes.byteAt_append_right, LittleEndian.length_word32, Nat.reduceLeDiff,
      Nat.reduceSub, Bytes.byteAt_cons_zero, Bytes.byteAt_cons_succ] at htype hcount
    rw [← List.drop_drop (i := 2) (j := 4), List.drop_left' (LittleEndian.length_word32 _)] at hdata
    rw [encodeDatum, ← htype, hcount, hdata]
    simp
  | [_] => simp at hlong
  | [] => simp at hlong

theorem ConsistsOf.eq_flatMap_encodeDatum {bytes : Bytes} {records : List Datum}
    (h : ConsistsOf DatumShape IsDatum bytes records) :
    bytes = records.flatMap encodeDatum := by
  obtain ⟨pieces, hpieces, hcut⟩ := h
  rw [← ((hcut pieces).mpr rfl).1]
  clear hcut
  induction hpieces with
  | nil => rfl
  | cons hpiece _ ih => rw [List.flatten_cons, ih, hpiece.eq_encodeDatum, List.flatMap_cons]

end Record

/-! ## Messages of one datagram -/

namespace Message

/-- A message is written as one datagram, from which nothing is lost. -/
structure Whole (m : Message) : Prop where
  fits : m.Fits
  undivided : m.parts = [m]

theorem Whole.carries {m : Message} (h : m.Whole) (sender : Station) :
    ∃ bytes, m.encode sender = .ok [bytes] ∧ Carries sender bytes m := by
  obtain ⟨datagrams, hencode, hcarries⟩ := carries_encode sender h.fits
  rw [h.undivided] at hcarries
  cases hcarries with
  | @cons bytes _ _ _ hbytes hnil =>
    cases hnil
    exact ⟨bytes, hencode, hbytes⟩

theorem whole_advert {links : List Link} (hne : links ≠ []) (hlength : links.length ≤ maxLinks) :
    (advert links).Whole :=
  ⟨trivial, by rw [parts, Packing.chunks_of_length_le hne hlength]; rfl⟩

theorem whole_bind {first : Bool} {bindings : List Binding}
    (hlength : bindings.length ≤ maxBindings) : (bind first bindings).Whole :=
  ⟨hlength, rfl⟩

theorem whole_data {records : List Datum} (hne : records ≠ [])
    (hlength : (records.flatMap Record.encodeDatum).length ≤ dataBudget) :
    (data records).Whole where
  fits := by
    intro d hd
    rw [← Record.length_encodeDatum]
    refine Nat.le_trans ?_ hlength
    exact (List.sublist_flatten_of_mem (List.mem_map_of_mem hd)).length_le
  undivided := by
    rw [parts, Packing.pack_of_fits (fun d => (Record.length_encodeDatum d).symm) hne hlength]
    rfl

theorem whole_heartbeat {h : Heartbeat} (hlength : h.tags.length ≤ maxQueryTags)
    (hzero : 0 ∉ h.tags) : (heartbeat h).Whole where
  fits := hlength
  undivided := by
    have htags : h.tags.filter (· ≠ 0) = h.tags :=
      List.filter_eq_self.mpr fun t ht => decide_eq_true fun heq => hzero (heq ▸ ht)
    rw [parts, htags]

theorem Whole.encode_data {records : List Datum} (h : (data records).Whole) (sender : Station) :
    encode sender (data records) =
      .ok [(sender.header .data 0).encode ++ records.flatMap Record.encodeDatum] := by
  have hall : (records.filter fun d => decide (Record.datumLength d ≤ dataBudget)) = records :=
    List.filter_eq_self.mpr fun d hd => decide_eq_true (h.fits d hd)
  have hpack : Packing.pack Record.datumLength dataBudget records = [records] := by
    obtain ⟨group, hgroup, heq⟩ := List.map_eq_singleton_iff.mp h.undivided
    rw [hgroup, Message.data.inj heq]
  rw [encode, encodeData, hall, hpack]
  rfl

/-- What is read from a datagram that the network takes is whole, unless it holds nothing. -/
theorem whole_of_decode {receiver : Station} {bytes : Bytes} {header : Header} {m : Message}
    (hlength : bytes.length ≤ Datagram.maxLength)
    (hdecode : decode receiver bytes = .ok (header, m)) (hadvert : m ≠ .advert [])
    (hdata : m ≠ .data []) : m.Whole := by
  obtain ⟨-, -, -, hbody⟩ := decode_eq_ok_iff.mp hdecode
  have hbudget : (bytes.drop 20).length ≤ 1180 := by
    rw [List.length_drop]
    exact Nat.sub_le_sub_right hlength 20
  cases m with
  | advert links =>
    rw [hbody.2.length_eq fun _ _ hlink => hlink.length] at hbudget
    have hlinks : links.length ≤ 24 := by omega
    exact whole_advert (fun hnil => hadvert (congrArg advert hnil)) hlinks
  | bind first bindings =>
    rw [hbody.2.2.length_eq fun _ _ hbinding => hbinding.length] at hbudget
    have hbindings : bindings.length ≤ 147 := by omega
    exact whole_bind hbindings
  | data records =>
    rw [hbody.2.eq_flatMap_encodeDatum] at hbudget
    exact whole_data (fun hnil => hdata (congrArg data hnil)) hbudget
  | heartbeat h =>
    obtain ⟨-, -, rfl⟩ := hbody
    refine whole_heartbeat ?_ ?_
    · refine Nat.le_trans (List.length_filter_le _ _) ?_
      rw [Vector.length_toList]
      exact Nat.le_refl _
    · intro hmem
      simpa using (List.mem_filter.mp hmem).2

/-- Every datagram of a message is that of a whole message, but for zeros among tags. -/
theorem exists_whole_of_mem_encode {sender : Station} {m : Message} {datagrams : List Bytes}
    (hencode : m.encode sender = .ok datagrams) (hzero : ∀ h, m = .heartbeat h → 0 ∉ h.tags)
    {bytes : Bytes} (hbytes : bytes ∈ datagrams) :
    ∃ part : Message, part.Whole ∧ part.encode sender = .ok [bytes] := by
  cases m with
  | advert links =>
    obtain rfl := Except.ok.inj hencode
    obtain ⟨part, hpart, rfl⟩ := List.mem_map.mp hbytes
    have hne := Packing.ne_nil_of_mem_pack hpart
    have hlength := Packing.length_le_of_mem_chunks (show 0 < maxLinks by decide) hpart
    refine ⟨.advert part, whole_advert hne hlength, ?_⟩
    rw [encode, encodeAdvert, Packing.chunks_of_length_le hne hlength]
    rfl
  | bind first bindings =>
    obtain ⟨bytes', hbind, rfl⟩ := map_eq_ok_iff.mp hencode
    obtain rfl := List.mem_singleton.mp hbytes
    have hlength : bindings.length ≤ maxBindings := by
      by_contra hlong
      rw [encodeBind, if_pos (Nat.not_le.mp hlong)] at hbind
      cases hbind
    exact ⟨.bind first bindings, whole_bind hlength, hencode⟩
  | data records =>
    obtain rfl := Except.ok.inj hencode
    obtain ⟨group, hgroup, rfl⟩ := List.mem_map.mp hbytes
    have hlength : (group.flatMap Record.encodeDatum).length ≤ dataBudget := by
      refine Packing.length_flatMap_le_of_mem_pack
        (fun d => (Record.length_encodeDatum d).symm) (fun d hd => ?_) hgroup
      exact of_decide_eq_true (List.mem_filter.mp hd).2
    have hwhole := whole_data (Packing.ne_nil_of_mem_pack hgroup) hlength
    exact ⟨.data group, hwhole, hwhole.encode_data sender⟩
  | heartbeat h =>
    obtain ⟨bytes', hheartbeat, rfl⟩ := map_eq_ok_iff.mp hencode
    obtain rfl := List.mem_singleton.mp hbytes
    have hlength : h.tags.length ≤ maxQueryTags := by
      by_contra hlong
      rw [encodeHeartbeat, if_pos (Nat.not_le.mp hlong)] at hheartbeat
      cases hheartbeat
    exact ⟨.heartbeat h, whole_heartbeat hlength (hzero h rfl), hencode⟩

/-! ## Writing what was read -/

/-- Reads a datagram and writes its message again, in the name of its sender. -/
def reencode (receiver : Station) (bytes : Bytes) : Except DatagramError (List Bytes) := do
  let (header, m) ← decode receiver bytes
  encode ⟨header.origin, header.realm⟩ m

/-- What a datagram carries is written as that datagram, if it is written as one at all. -/
theorem Carries.reencode_eq {sender receiver : Station} {bytes : Bytes} {m : Message}
    (h : Carries sender bytes m) (hencode : m.encode sender = .ok [bytes])
    (hdevice : receiver.device ≠ sender.device) (hrealm : receiver.realm = sender.realm) :
    reencode receiver bytes = .ok [bytes] := by
  obtain ⟨header, hdecode, horigin, hheader⟩ := h.accepted receiver hdevice hrealm
  refine bind_eq_ok_iff.mpr ⟨(header, m), hdecode, ?_⟩
  show encode ⟨header.origin, header.realm⟩ m = .ok [bytes]
  rw [horigin, hheader]
  exact hencode

/-- A receiver reads a datagram of at most 1200 bytes, which may come from anyone, as a message
that is neither an advert without links nor values without any. To write the message in the
name of the sender gives one datagram that fits the network. The receiver reads the same
message of the same sender from it and would write it as the same datagram. Values are
written as they were received. What the encoders write for a station that the receiver
listens to is of this form from the start, unless it is a heartbeat with zeros among its
tags. -/
theorem reencoding_normalises (receiver : Station) :
    (∀ bytes header m, bytes.length ≤ 1200 → decode receiver bytes = .ok (header, m) →
      m ≠ .advert [] → m ≠ .data [] →
      ∃ normal : Bytes, encode ⟨header.origin, header.realm⟩ m = .ok [normal] ∧
        normal.length ≤ 1200 ∧
        (∃ header', decode receiver normal = .ok (header', m) ∧
          header'.origin = header.origin ∧ header'.realm = header.realm) ∧
        reencode receiver normal = .ok [normal] ∧
        ∀ records, m = .data records → normal.drop 20 = bytes.drop 20) ∧
    (∀ (sender : Station) m datagrams, sender.device ≠ receiver.device →
      sender.realm = receiver.realm → encode sender m = .ok datagrams →
      (∀ h, m = .heartbeat h → 0 ∉ h.tags) →
      ∀ bytes ∈ datagrams, reencode receiver bytes = .ok [bytes]) := by
  refine ⟨?_, ?_⟩
  · intro bytes header m hlength hdecode hadvert hdata
    let sender : Station := ⟨header.origin, header.realm⟩
    obtain ⟨-, horigin, hrealm, hbody⟩ := decode_eq_ok_iff.mp hdecode
    have hwhole : m.Whole := whole_of_decode hlength hdecode hadvert hdata
    obtain ⟨normal, hencode, hcarries⟩ := hwhole.carries sender
    refine ⟨normal, hencode, hcarries.fits, hcarries.accepted receiver horigin.symm hrealm.symm,
      hcarries.reencode_eq hencode horigin.symm hrealm.symm, ?_⟩
    rintro records rfl
    obtain rfl := List.singleton_injective
      (Except.ok.inj (hencode.symm.trans (hwhole.encode_data sender)))
    rw [hbody.2.eq_flatMap_encodeDatum]
    exact List.drop_left' (Header.length_encode _)
  · intro sender m datagrams hdevice hrealm hencode hzero bytes hbytes
    obtain ⟨part, hwhole, hpart⟩ := exists_whole_of_mem_encode hencode hzero hbytes
    obtain ⟨bytes', hbytes', hcarries⟩ := hwhole.carries sender
    obtain rfl : bytes' = bytes := by
      rw [hpart] at hbytes'
      exact (List.singleton_injective (Except.ok.inj hbytes')).symm
    exact hcarries.reencode_eq hpart hdevice.symm hrealm.symm

/-- A link with its tags in ascending order and repeated, with a rate that is too fast, under
a header with flags and a reserved byte that mean nothing. -/
theorem foreign_advert_normalised :
    let row := List.flatMap LittleEndian.word32
    let received := (Header.mk .advert 0xF0 5 3).encode.set 7 9 ++
      ([1, 0, 5, 0] ++ row [1, 2, 0, 3, 8, 0, 8, 3, 0, 0, 0])
    let normal := (Header.mk .advert 0 5 3).encode ++
      ([1, 0, 20, 0] ++ row [1, 2, 0, 8, 3, 0, 0, 0, 0, 0, 0])
    let link : Link :=
      { Link.new .recv 1 2 with
        query := .ofSlots #v[8, 3, 0, 0, 0, 0, 0, 0]
        rate := .clamp 20 }
    decode ⟨4, 3⟩ received = .ok (⟨.advert, 0xF0, 5, 3⟩, .advert [link]) ∧
    encode ⟨5, 3⟩ (.advert [link]) = .ok [normal] ∧
    (∃ header, decode ⟨4, 3⟩ normal = .ok (header, .advert [link]) ∧
      header.origin = 5 ∧ header.realm = 3) ∧
    reencode ⟨4, 3⟩ normal = .ok [normal] := by
  intro row received normal link
  have hdecode : decode ⟨4, 3⟩ received = .ok (⟨.advert, 0xF0, 5, 3⟩, .advert [link]) := by
    decide +kernel
  have hencode : encode ⟨5, 3⟩ (.advert [link]) = .ok [normal] := by decide +kernel
  obtain ⟨hread, hwritten⟩ := reencoding_normalises ⟨4, 3⟩
  obtain ⟨normal', hencode', -, hsame, -, -⟩ :=
    hread received _ _ (by decide) hdecode (by simp) (by simp)
  obtain rfl := List.singleton_injective (Except.ok.inj (hencode.symm.trans hencode'))
  refine ⟨hdecode, hencode, hsame, ?_⟩
  exact hwritten ⟨5, 3⟩ _ _ (by decide) rfl hencode (by simp) normal (List.mem_singleton_self _)

end Message

end LinkFabric
