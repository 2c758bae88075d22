import LinkFabric.Datagram.Beacon
import LinkFabric.Proofs.Grammar
import Mathlib.Data.List.Sort

/-!
# Records are read back

What the encoder of a record writes stands for what it was written for, in the grammar of
datagrams; so the decoder reads it back. A link is normalised on the way in: its rate is
clamped and its tags are put in order. Links have both properties by construction, so a
link comes back as it was.

Main results:

* `Header.decode_encode`: a header is read back.
* `Record.isLink_encodeLink`, `Record.isBinding_encodeBinding`, `Record.isDatum_encodeDatum`:
  records stand for what they were written for.
* `Record.Reads.decodeAll_flatMap`: a sequence of records is read back.
* `Beacon.decode_encode_append`: a beacon is read back whatever follows it.
-/

namespace LinkFabric

open LittleEndian Bytes

/-! ## Headers and beacons -/

namespace Datagram

theorem length_encodeCommon (family : Family) (kind : MessageKind) (flags : UInt8) :
    (encodeCommon family kind flags).length = commonLength := by
  simp [encodeCommon, commonLength]

theorem decodeCommon_encodeCommon (family : Family) (kind : MessageKind) (flags : UInt8)
    (rest : Bytes) :
    decodeCommon family (encodeCommon family kind flags ++ rest) = .ok ((kind, flags), rest) := by
  unfold decodeCommon
  rw [split_append (length_encodeCommon family kind flags)]
  simp [bind, Except.bind, encodeCommon]

end Datagram

theorem Header.length_encode (h : Header) : h.encode.length = Datagram.headerLength := by
  simp [Header.encode, Datagram.length_encodeCommon, Datagram.headerLength, Datagram.commonLength]

theorem Header.decode_encode (h : Header) (rest : Bytes) :
    Header.decode (h.encode ++ rest) = .ok (h, rest) := by
  have hsender : (word64 h.origin ++ word32 h.realm).length =
      Datagram.headerLength - Datagram.commonLength := by
    rw [List.length_append, length_word64, length_word32]
    rfl
  have hencode : h.encode ++ rest = Datagram.encodeCommon .link h.kind h.flags ++
      ((word64 h.origin ++ word32 h.realm) ++ rest) := by
    simp only [Header.encode, List.append_assoc]
  unfold Header.decode
  rw [hencode, Datagram.decodeCommon_encodeCommon]
  simp only [bind, Except.bind]
  rw [Datagram.split_append hsender]
  simp [pure, Except.pure]

/-- A beacon is read back, and what follows it is not looked at. -/
theorem Beacon.decode_encode_append (b : Beacon) (rest : Bytes) :
    Beacon.decode (b.encode ++ rest) = .ok b := by
  let body : Bytes := word16 b.flags ++ word16 b.priority ++ word64 b.timestamp ++ word64 b.device
  have hbody : body.length = bodyLength := by
    simp [body, bodyLength]
  have hencode : b.encode ++ rest =
      Datagram.encodeCommon .election .announce 0 ++ (body ++ rest) := by
    simp only [Beacon.encode, body, List.append_assoc]
  unfold Beacon.decode
  rw [hencode, Datagram.decodeCommon_encodeCommon]
  simp only [bind, Except.bind, ne_eq, not_true_eq_false, if_false]
  rw [Datagram.split_append hbody]
  simp [pure, Except.pure, body]

/-! ## Tags and rates are in their one form already -/

namespace TagQuery

theorem eq_iff_tags {q q' : TagQuery} : q = q' ↔ q.tags = q'.tags := by
  cases q
  cases q'
  exact ⟨fun h => congrArg tags h, fun h => by cases h; rfl⟩

/-- A strictly descending list is determined by its members. -/
theorem eq_iff_mem {q q' : TagQuery} : q = q' ↔ ∀ t, t ∈ q.tags ↔ t ∈ q'.tags := by
  refine ⟨fun h t => by rw [h], fun h => eq_iff_tags.mpr ?_⟩
  exact q.descending.eq_of_mem_iff q'.descending h

theorem toList_slots (q : TagQuery) :
    q.slots.toList = q.tags ++ List.replicate (8 - q.tags.length) 0 := rfl

theorem mem_tags_ofSlots {slots : Vector Tag 8} {t : Tag} :
    t ∈ (ofSlots slots).tags ↔ t ∈ slots.toList ∧ t ≠ 0 := by
  rw [ofSlots, mem_compact, mem_sortDescending]

theorem ofSlots_slots (q : TagQuery) : ofSlots q.slots = q := by
  refine eq_iff_mem.mpr fun t => ?_
  rw [mem_tags_ofSlots, toList_slots, List.mem_append, List.mem_replicate]
  constructor
  · rintro ⟨hmem | ⟨-, hzero⟩, hne⟩
    · exact hmem
    · exact absurd hzero hne
  · intro hmem
    exact ⟨.inl hmem, fun hzero => q.zero_not_mem (hzero ▸ hmem)⟩

end TagQuery

/-! ## Links, bindings and values -/

namespace Record

theorem length_encodeLink (l : Link) : (encodeLink l).length = linkLength := by
  simp only [encodeLink, linkLength, List.length_append, List.length_cons, List.length_nil,
    length_word16, length_word32, length_flatMap_eq length_word32, Vector.length_toList]

theorem isLink_encodeLink (l : Link) : IsLink (encodeLink l) l where
  length := length_encodeLink l
  mode := by simp [encodeLink]
  aggregation := by simp [encodeLink]
  rate := by simp [encodeLink, Rate.clamp_ms]
  sourceKey := by simp [encodeLink]
  destKey := by simp [encodeLink]
  tag := by simp [encodeLink]
  query := by simp [encodeLink, TagQuery.ofSlots_slots]

theorem length_encodeBinding (b : Binding) : (encodeBinding b).length = bindingLength := by
  simp [encodeBinding, bindingLength]

theorem isBinding_encodeBinding (b : Binding) : IsBinding (encodeBinding b) b where
  length := length_encodeBinding b
  key := by simp [encodeBinding]
  rate := by simp [encodeBinding]
  role := BindingRole.ofFlags?_eq_some_iff.mp (by simp [encodeBinding])

theorem length_encodeDatum (d : Datum) : (encodeDatum d).length = datumLength d := by
  simp only [encodeDatum, datumLength, datumHeaderLength, List.length_append, List.length_cons,
    List.length_nil, length_word32]

theorem isDatum_encodeDatum (d : Datum) : IsDatum (encodeDatum d) d where
  length := length_encodeDatum d
  key := by simp [encodeDatum]
  type := by simp [encodeDatum]
  count := by simp [encodeDatum]
  data := (List.drop_left' (by simp)).symm

/-- Records that are written one after another are read back. -/
theorem Reads.decodeAll_flatMap {α : Type} {decode : Bytes → Except DatagramError (α × Bytes)}
    {shape : Bytes → Prop} {Is : Bytes → α → Prop} (h : Reads decode shape Is)
    {encode : α → Bytes} (hencode : ∀ x, Is (encode x) x) (xs : List α) :
    decodeAll decode (xs.flatMap encode) = .ok xs := by
  refine (h.decodeUpTo_eq_ok_iff (Nat.le_refl _)).mpr ⟨xs.map encode, List.flatMap_def.symm, ?_⟩
  rw [List.forall₂_map_left_iff, List.forall₂_same]
  exact fun x _ => hencode x

end Record

end LinkFabric
