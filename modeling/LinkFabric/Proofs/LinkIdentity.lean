import LinkFabric.Link.Identity
import LinkFabric.Proofs.RoundTrip

/-!
# A name stands for one link

Nodes refer to links by names that each of them works out for itself, so two links must not
share a name, and a link must not change its name on its way to another node. The name is a
hash of the serialisation of a link. The serialisation is the record of the link on the wire
with four zero bytes in the middle, and a record is read back as the link it was written for.
So different links have different serialisations, and share a name only where the hash
itself collides.

Main results:

* `Link.exists_layout`: record and serialisation have the same bytes around the reserved ones.
* `Link.canonicalBytes_injective`: the serialisation tells links apart.
* `Link.id_eq_iff`: when two links share a name.
* `Link.names_tell_links_apart`: all of this in one statement, and what other nodes read.
-/

namespace LinkFabric

open LittleEndian

theorem Blake3.length_hash128 (message : Bytes) : (hash128 message).length = 16 := by
  show ([_, _, _, _].flatMap word32).length = 16
  rw [length_flatMap_eq length_word32]
  rfl

namespace Link

/-! ## Record and serialisation -/

/-- The record of a link and its serialisation begin and end alike; between, the serialisation
has four zero bytes. -/
theorem exists_layout (l : Link) :
    ∃ front back : Bytes, front.length = 16 ∧ Record.encodeLink l = front ++ back ∧
      l.canonicalBytes = front ++ [0, 0, 0, 0] ++ back := by
  refine ⟨[l.mode.code, l.aggregation.code] ++ word16 l.rate.ms ++ word32 l.sourceKey ++
    word32 l.destKey ++ word32 l.tag, l.query.slots.toList.flatMap word32, ?_, rfl, rfl⟩
  simp only [List.length_append, List.length_cons, List.length_nil, length_word16, length_word32]

theorem encodeLink_eq (l : Link) :
    Record.encodeLink l = l.canonicalBytes.take 16 ++ l.canonicalBytes.drop 20 := by
  obtain ⟨front, back, hfront, hrecord, hcanonical⟩ := l.exists_layout
  have hlength : (front ++ [0, 0, 0, 0]).length = 20 := by
    rw [List.length_append, hfront]
    rfl
  rw [hrecord, hcanonical, List.drop_left' hlength, List.append_assoc, List.take_left' hfront]

theorem canonicalBytes_eq (l : Link) :
    l.canonicalBytes =
      (Record.encodeLink l).take 16 ++ [0, 0, 0, 0] ++ (Record.encodeLink l).drop 16 := by
  obtain ⟨front, back, hfront, hrecord, hcanonical⟩ := l.exists_layout
  rw [hrecord, hcanonical, List.take_left' hfront, List.drop_left' hfront]

theorem decodeLink_encodeLink (l : Link) (rest : Bytes) :
    Record.decodeLink (Record.encodeLink l ++ rest) = .ok (l, rest) :=
  Record.reads_link.decode_append (Record.isLink_encodeLink l) rest

/-! ## Names -/

theorem canonicalBytes_injective : Function.Injective canonicalBytes := by
  intro a b h
  have hrecord : Record.encodeLink a = Record.encodeLink b := by
    rw [encodeLink_eq, h, ← encodeLink_eq]
  have hread := decodeLink_encodeLink a []
  rw [hrecord, decodeLink_encodeLink] at hread
  cases hread
  rfl

/-- Links share a name if they are the same, or if the hash begins alike for their different
serialisations. -/
theorem id_eq_iff {a b : Link} :
    a.id = b.id ↔ a = b ∨ a.canonicalBytes ≠ b.canonicalBytes ∧
      (Blake3.hash128 a.canonicalBytes).take 8 = (Blake3.hash128 b.canonicalBytes).take 8 := by
  have hlong : ∀ message, 8 ≤ (Blake3.hash128 message).length := by
    intro message
    rw [Blake3.length_hash128]
    decide
  have hword : a.id = b.id ↔
      (Blake3.hash128 a.canonicalBytes).take 8 = (Blake3.hash128 b.canonicalBytes).take 8 :=
    Bytes.word64At_zero_inj (hlong _) (hlong _)
  rw [hword, canonicalBytes_injective.ne_iff]
  constructor
  · intro h
    by_cases hab : a = b
    · exact .inl hab
    · exact .inr ⟨hab, h⟩
  · rintro (rfl | h)
    · rfl
    · exact h.2

/-- Links have the same serialisation iff they are the same. So they share a name iff they are
the same or the first eight bytes of the hash are the same for two different serialisations.
The record of a link, of 48 bytes, is its serialisation, of 52, without the four bytes that are
kept for a filter, which are zero. A record is read back as its link whatever follows it; and
from the datagrams that advertise some links, every other node of the universe reads the same
links in the same order, and so arrives at the same names. -/
theorem names_tell_links_apart :
    (∀ a b : Link, a.canonicalBytes = b.canonicalBytes ↔ a = b) ∧
    (∀ a b : Link, a.id = b.id ↔ a = b ∨ a.canonicalBytes ≠ b.canonicalBytes ∧
      (Blake3.hash128 a.canonicalBytes).take 8 = (Blake3.hash128 b.canonicalBytes).take 8) ∧
    (∀ l : Link,
      let record := Record.encodeLink l
      record.length = 48 ∧ l.canonicalBytes.length = 52 ∧
      record = l.canonicalBytes.take 16 ++ l.canonicalBytes.drop 20 ∧
      l.canonicalBytes = record.take 16 ++ [0, 0, 0, 0] ++ record.drop 16 ∧
      ∀ rest, Record.decodeLink (record ++ rest) = .ok (l, rest)) ∧
    (∀ (sender receiver : Station) (links : List Link), receiver.device ≠ sender.device →
      receiver.realm = sender.realm → ∃ parts : List (List Link),
        List.Forall₂
          (fun bytes part => ∃ header, Message.decode receiver bytes = .ok (header, .advert part))
          (Message.encodeAdvert sender links) parts ∧
        parts.flatten = links ∧ parts.flatten.map (·.id) = links.map (·.id)) := by
  refine ⟨fun a b => canonicalBytes_injective.eq_iff, fun a b => id_eq_iff, fun l => ?_, ?_⟩
  · exact ⟨Record.length_encodeLink l, l.length_canonicalBytes, l.encodeLink_eq,
      l.canonicalBytes_eq, l.decodeLink_encodeLink⟩
  · intro sender receiver links hdevice hrealm
    have hparts : (Packing.chunks Message.maxLinks links).flatten = links :=
      Packing.flatten_pack _ _ _
    refine ⟨Packing.chunks Message.maxLinks links, ?_, hparts, by rw [hparts]⟩
    refine (Message.carries_encodeAdvert sender links).imp fun bytes part hcarries => ?_
    obtain ⟨header, hdecode, -⟩ := hcarries.accepted receiver hdevice hrealm
    exact ⟨header, hdecode⟩

/-- Two links that differ in the order of their keys have different serialisations and names,
and a node that hears of both arrives at these names. -/
theorem swapped_keys_told_apart :
    let a := Link.new .send 1 2
    let b := Link.new .send 2 1
    a.canonicalBytes ≠ b.canonicalBytes ∧ a.id ≠ b.id ∧
    ∃ parts : List (List Link),
      List.Forall₂
        (fun bytes part => ∃ header, Message.decode ⟨2, 7⟩ bytes = .ok (header, .advert part))
        (Message.encodeAdvert ⟨1, 7⟩ [a, b]) parts ∧
      parts.flatten = [a, b] ∧ parts.flatten.map (·.id) = [a.id, b.id] := by
  intro a b
  obtain ⟨hbytes, hnames, -, hread⟩ := names_tell_links_apart
  have hne : a ≠ b := by decide
  refine ⟨fun h => hne ((hbytes a b).mp h), fun h => ?_, ?_⟩
  · obtain heq | ⟨-, hcollision⟩ := (hnames a b).mp h
    · exact hne heq
    · exact absurd hcollision (by decide +kernel)
  · exact hread ⟨1, 7⟩ ⟨2, 7⟩ [a, b] (by decide) rfl

end Link

end LinkFabric
