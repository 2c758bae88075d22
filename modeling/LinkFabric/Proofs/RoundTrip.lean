import LinkFabric.Datagram.Message
import LinkFabric.Proofs.Records
import Mathlib.Data.List.Forall2

/-!
# Messages cross the network unchanged

A datagram carries a message if it fits the network and the message is what every station
of the sender's universe reads from it, the sender itself apart. All datagrams that are
written for links, bindings, values and heartbeats carry what they were written for. Of a
heartbeat's tags the zeros are lost, since a zero stands for an empty slot.

Main results:

* `Message.carries_of_body`: a body that is read back makes a datagram that carries it.
* `Message.carries_encodeAdvert`, `Message.carries_encodeBind`, `Message.carries_encodeData`,
  `Message.carries_encodeHeartbeat`: what the encoders write is carried.
* `Message.datagrams_carry_messages`: all of this in one statement, with the limits of the
  encoders.
-/

namespace LinkFabric

namespace Message

/-- A datagram of a sender carries a message. The network takes the datagram, and a receiver
takes it in whole. Other stations of the universe read the message and its sender; the sender
itself and stations of other universes do not listen. -/
structure Carries (sender : Station) (bytes : Bytes) (m : Message) : Prop where
  fits : bytes.length ≤ Datagram.maxLength
  whole : bytes.take Datagram.receiveLength = bytes
  accepted : ∀ receiver : Station, receiver.device ≠ sender.device →
    receiver.realm = sender.realm → ∃ header : Header,
      decode receiver bytes = .ok (header, m) ∧
        header.origin = sender.device ∧ header.realm = sender.realm
  own : ∀ receiver : Station, receiver.device = sender.device →
    decode receiver bytes = .error .selfOrigin
  foreign : ∀ receiver : Station, receiver.device ≠ sender.device →
    receiver.realm ≠ sender.realm →
      decode receiver bytes = .error (.foreignUniverse sender.realm)

/-! ## From bodies to datagrams -/

/-- A body that can be read is read at every station that accepts the header. -/
theorem decode_header_append {header : Header} {body : Bytes} {m : Message}
    (hbody : decodeBody header body = .ok m) (receiver : Station) :
    decode receiver (header.encode ++ body) =
      (receiver.accept header).map fun _ => (header, m) := by
  unfold decode
  rw [Header.decode_encode]
  simp only [Bind.bind, Except.bind, hbody]
  cases receiver.accept header <;> rfl

theorem carries_of_body {sender : Station} {kind : MessageKind} {flags : UInt8} {body : Bytes}
    {m : Message} (hbody : decodeBody (sender.header kind flags) body = .ok m)
    (hlength : body.length ≤ Datagram.maxLength - Datagram.headerLength) :
    Carries sender ((sender.header kind flags).encode ++ body) m := by
  have hfits : ((sender.header kind flags).encode ++ body).length ≤ Datagram.maxLength := by
    rw [List.length_append, Header.length_encode]
    simp only [Datagram.maxLength, Datagram.headerLength] at hlength ⊢
    omega
  refine ⟨hfits, List.take_of_length_le (Nat.le_trans hfits (by decide)), ?_, ?_, ?_⟩
  · intro receiver hdevice hrealm
    have haccept : receiver.accept (sender.header kind flags) = .ok () := by
      simp [Station.accept, Station.header, Ne.symm hdevice, hrealm]
    refine ⟨sender.header kind flags, ?_, rfl, rfl⟩
    rw [decode_header_append hbody, haccept]
    rfl
  · intro receiver hdevice
    have hrefuse : receiver.accept (sender.header kind flags) = .error .selfOrigin := by
      simp [Station.accept, Station.header, hdevice]
    rw [decode_header_append hbody, hrefuse]
    rfl
  · intro receiver hdevice hrealm
    have hrefuse : receiver.accept (sender.header kind flags) =
        .error (.foreignUniverse sender.realm) := by
      simp [Station.accept, Station.header, Ne.symm hdevice, Ne.symm hrealm]
    rw [decode_header_append hbody, hrefuse]
    rfl

/-! ## The encoders -/

theorem carries_encodeAdvert (sender : Station) (links : List Link) :
    List.Forall₂ (fun bytes part => Carries sender bytes (.advert part))
      (encodeAdvert sender links) (Packing.chunks maxLinks links) := by
  unfold encodeAdvert
  rw [List.forall₂_map_left_iff, List.forall₂_same]
  intro part hpart
  have hpart : part.length ≤ maxLinks := Packing.length_le_of_mem_chunks (by decide) hpart
  apply carries_of_body
  · have hread : Record.decodeAll Record.decodeLink (part.flatMap Record.encodeLink) = .ok part :=
      Record.reads_link.decodeAll_flatMap Record.isLink_encodeLink part
    simp only [decodeBody, Station.header, hread, Except.map]
  · rw [LittleEndian.length_flatMap_eq Record.length_encodeLink]
    calc Record.linkLength * part.length ≤ Record.linkLength * maxLinks :=
          Nat.mul_le_mul_left _ hpart
      _ ≤ Datagram.maxLength - Datagram.headerLength := by decide

theorem carries_encodeBind (sender : Station) (first : Bool) {bindings : List Binding}
    (h : bindings.length ≤ maxBindings) :
    ∃ bytes, encodeBind sender first bindings = .ok bytes ∧
      Carries sender bytes (.bind first bindings) := by
  unfold encodeBind
  rw [if_neg (Nat.not_lt.mpr h)]
  refine ⟨_, rfl, carries_of_body ?_ ?_⟩
  · have hread : Record.decodeAll Record.decodeBinding (bindings.flatMap Record.encodeBinding) =
        .ok bindings :=
      Record.reads_binding.decodeAll_flatMap Record.isBinding_encodeBinding bindings
    have hflag : ((if first then firstFlag else 0) &&& firstFlag != 0) = first := by
      cases first <;> rfl
    simp only [decodeBody, Station.header, hread, hflag, Except.map]
  · rw [LittleEndian.length_flatMap_eq Record.length_encodeBinding]
    calc Record.bindingLength * bindings.length ≤ Record.bindingLength * maxBindings :=
          Nat.mul_le_mul_left _ h
      _ ≤ Datagram.maxLength - Datagram.headerLength := by decide

/-- Of some values, those that fit a datagram are carried, in groups. -/
theorem carries_encodeData (sender : Station) (records : List Datum) :
    List.Forall₂ (fun bytes group => Carries sender bytes (.data group))
      (encodeData sender records)
      (Packing.pack Record.datumLength dataBudget
        (records.filter fun d => decide (Record.datumLength d ≤ dataBudget))) := by
  unfold encodeData
  rw [List.forall₂_map_left_iff, List.forall₂_same]
  intro group hgroup
  apply carries_of_body
  · have hread : Record.decodeAll Record.decodeDatum (group.flatMap Record.encodeDatum) =
        .ok group :=
      Record.reads_datum.decodeAll_flatMap Record.isDatum_encodeDatum group
    simp only [decodeBody, Station.header, hread, Except.map]
  · refine Packing.length_flatMap_le_of_mem_pack (fun d => (Record.length_encodeDatum d).symm)
      (fun d hd => ?_) hgroup
    exact of_decide_eq_true (List.mem_filter.mp hd).2

/-- The slots of a heartbeat: its tags, then empty ones. -/
theorem length_slots {tags : List Tag} (h : tags.length ≤ maxQueryTags) :
    (tags ++ List.replicate (maxQueryTags - tags.length) 0).length = maxQueryTags := by
  rw [List.length_append, List.length_replicate]
  omega

theorem decodeHeartbeat_slots (flags : UInt32) {slots : List Tag}
    (h : slots.length = maxQueryTags) :
    decodeHeartbeat (LittleEndian.word32 flags ++ slots.flatMap LittleEndian.word32) =
      .ok ⟨flags, slots.filter (· ≠ 0)⟩ := by
  have hlength : (LittleEndian.word32 flags ++ slots.flatMap LittleEndian.word32).length =
      heartbeatLength := by
    rw [List.length_append, LittleEndian.length_word32,
      LittleEndian.length_flatMap_eq LittleEndian.length_word32, h]
    rfl
  have hsplit := Datagram.split_append hlength []
  rw [List.append_nil] at hsplit
  have hrow : (Bytes.words32At (slots.flatMap LittleEndian.word32) 0 8).toList = slots :=
    Bytes.toList_words32At h
  unfold decodeHeartbeat
  rw [hsplit]
  simp [Bind.bind, Except.bind, pure, Except.pure, hrow]

theorem carries_encodeHeartbeat (sender : Station) {h : Heartbeat}
    (htags : h.tags.length ≤ maxQueryTags) :
    ∃ bytes, encodeHeartbeat sender h = .ok bytes ∧
      Carries sender bytes (.heartbeat ⟨h.serviceFlags, h.tags.filter (· ≠ 0)⟩) := by
  unfold encodeHeartbeat
  rw [if_neg (Nat.not_lt.mpr htags)]
  have hslots := length_slots htags
  refine ⟨_, rfl, ?_⟩
  rw [List.append_assoc]
  apply carries_of_body
  · have hempty : (h.tags ++ List.replicate (maxQueryTags - h.tags.length) 0).filter (· ≠ 0) =
        h.tags.filter (· ≠ 0) := by
      simp
    have hread := decodeHeartbeat_slots h.serviceFlags hslots
    simp only [decodeBody, Station.header, hread, hempty, Except.map]
  · rw [List.length_append, LittleEndian.length_word32,
      LittleEndian.length_flatMap_eq LittleEndian.length_word32, hslots]
    decide

/-! ## All messages -/

/-- Everything that is written can be read. Links are spread over several datagrams and come
back in order. A datagram holds up to 147 bindings and a heartbeat up to 8 tags, and more
are refused. A beacon is read back whatever follows it. -/
theorem datagrams_carry_messages (sender : Station) :
    (∀ links, ∃ parts : List (List Link), parts.flatten = links ∧
      List.Forall₂ (fun bytes part => Carries sender bytes (.advert part))
        (encodeAdvert sender links) parts) ∧
    (∀ first bindings,
      (bindings.length ≤ 147 → ∃ bytes, encodeBind sender first bindings = .ok bytes ∧
        Carries sender bytes (.bind first bindings)) ∧
      (147 < bindings.length →
        encodeBind sender first bindings = .error (.oversized bindings.length 147))) ∧
    (∀ h : Heartbeat,
      (h.tags.length ≤ 8 → ∃ bytes, encodeHeartbeat sender h = .ok bytes ∧
        Carries sender bytes (.heartbeat ⟨h.serviceFlags, h.tags.filter (· ≠ 0)⟩)) ∧
      (8 < h.tags.length →
        encodeHeartbeat sender h = .error (.link (.tooManyTags h.tags.length)))) ∧
    (∀ (b : Beacon) (rest : Bytes), Beacon.decode (b.encode ++ rest) = .ok b) := by
  refine ⟨?_, ?_, ?_, Beacon.decode_encode_append⟩
  · intro links
    exact ⟨Packing.chunks maxLinks links, Packing.flatten_pack _ _ _,
      carries_encodeAdvert sender links⟩
  · intro first bindings
    exact ⟨carries_encodeBind sender first, fun h => if_pos h⟩
  · intro h
    exact ⟨carries_encodeHeartbeat sender, fun htags => if_pos htags⟩

/-- The heartbeat of a node with tags 4 and 9 and an empty slot between them, as the leader
of its realm reads it. -/
theorem heartbeat_crosses_network :
    ∃ bytes, encodeHeartbeat ⟨2, 7⟩ ⟨5, [4, 0, 9]⟩ = .ok bytes ∧
      Carries ⟨2, 7⟩ bytes (.heartbeat ⟨5, [4, 9]⟩) :=
  ((datagrams_carry_messages ⟨2, 7⟩).2.2.1 ⟨5, [4, 0, 9]⟩).1 (by decide)

end Message

end LinkFabric
