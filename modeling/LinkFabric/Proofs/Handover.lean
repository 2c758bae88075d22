import LinkFabric.Node.Basic
import LinkFabric.Proofs.RoundTrip

/-!
# Handing over is as good as sending

A message to the leader goes over the network, unless the node leads itself and hands it
over; so does a message of the leader to a node. The network cuts a message into several
datagrams and drops the zeros among the tags of a heartbeat. Neither makes a difference:
whoever takes in a message takes in its items one after another, and a leader does not
look at tags that are zero.

Main results:

* `Message.carries_encode`: the datagrams of a message carry its parts.
* `Coordinator.ingest_parts`, `Binder.apply_parts`: to take in the parts of a message one
  after another is to take in the message.
* `Node.network_equals_handover`: a node is the same after the datagrams and after the message.
-/

namespace LinkFabric

/-! ## Parts -/

namespace Message

/-- Everything in a message fits a datagram, and what cannot be spread over several fits one. -/
def Fits : Message → Prop
  | .advert _ => True
  | .bind _ bindings => bindings.length ≤ 147
  | .data records => ∀ d ∈ records, Record.datumLength d ≤ 1180
  | .heartbeat h => h.tags.length ≤ 8

instance (m : Message) : Decidable m.Fits :=
  match m with
  | .advert _ => inferInstanceAs (Decidable True)
  | .bind _ bindings => inferInstanceAs (Decidable (bindings.length ≤ 147))
  | .data records => inferInstanceAs (Decidable (∀ d ∈ records, Record.datumLength d ≤ 1180))
  | .heartbeat h => inferInstanceAs (Decidable (h.tags.length ≤ 8))

/-- The messages that the datagrams of a message carry. -/
def parts : Message → List Message
  | .advert links => (Packing.chunks maxLinks links).map .advert
  | .bind first bindings => [.bind first bindings]
  | .data records => (Packing.pack Record.datumLength dataBudget records).map .data
  | .heartbeat h => [.heartbeat ⟨h.serviceFlags, h.tags.filter (· ≠ 0)⟩]

theorem carries_encode (sender : Station) {m : Message} (h : m.Fits) :
    ∃ datagrams, m.encode sender = .ok datagrams ∧
      List.Forall₂ (Carries sender) datagrams m.parts := by
  cases m with
  | advert links =>
    refine ⟨_, rfl, ?_⟩
    rw [parts, List.forall₂_map_right_iff]
    exact carries_encodeAdvert sender links
  | bind first bindings =>
    obtain ⟨bytes, hbytes, hcarries⟩ := carries_encodeBind sender first h
    exact ⟨[bytes], by rw [encode, hbytes]; rfl, .cons hcarries .nil⟩
  | data records =>
    have hall : (records.filter fun d => decide (Record.datumLength d ≤ dataBudget)) = records :=
      List.filter_eq_self.mpr fun d hd => decide_eq_true (h d hd)
    have hcarries := carries_encodeData sender records
    rw [hall] at hcarries
    refine ⟨_, rfl, ?_⟩
    rw [parts, List.forall₂_map_right_iff]
    exact hcarries
  | heartbeat hb =>
    obtain ⟨bytes, hbytes, hcarries⟩ := carries_encodeHeartbeat sender h
    exact ⟨[bytes], by rw [encode, hbytes]; rfl, .cons hcarries .nil⟩

end Message

/-! ## Taking in the parts of a message -/

/-- Zeros among tags do not count for a follower. -/
theorem Follower.new_filter (address : Address) (tags : List Tag) (flags : UInt32) :
    Follower.new address (tags.filter (· ≠ 0)) flags = Follower.new address tags flags := by
  simp only [Follower.new, List.filter_filter, Bool.and_self]

theorem Roster.tryHeartbeat_filter (r : Roster) (address : Address) (h : Heartbeat) :
    r.tryHeartbeat address ⟨h.serviceFlags, h.tags.filter (· ≠ 0)⟩ = r.tryHeartbeat address h := by
  simp only [tryHeartbeat, heartbeat, Follower.new_filter]

theorem Coordinator.ingest_parts (c : Coordinator) (source : Address) (now : Instant)
    (m : Message) :
    m.parts.foldl (fun c part => c.ingest source now part) c = c.ingest source now m := by
  cases m with
  | advert links =>
    -- Links change nothing but the registry, so the fold is one over registries.
    rw [Message.parts, List.foldl_map]
    refine Packing.foldl_pack _ _ (fun r => { c with registry := r })
      (fun r link => r.tryUpdate link source) ?_ c.registry links
    exact fun _ _ => rfl
  | bind first bindings => rfl
  | data records =>
    rw [Message.parts, List.foldl_map]
    refine Packing.foldl_pack _ _ (fun a => { c with aggregator := a })
      (fun a d => a.ingest d.key d.value now) ?_ c.aggregator records
    exact fun _ _ => rfl
  | heartbeat h =>
    show { c with roster := c.roster.tryHeartbeat source _ } = _
    rw [Roster.tryHeartbeat_filter]
    rfl

theorem Binder.apply_parts (b : Binder) (now : Instant) (m : Message) :
    m.parts.foldl (fun b part => b.apply now part) b = b.apply now m := by
  cases m with
  | advert links =>
    rw [Message.parts, List.foldl_map]
    exact List.foldl_fixed _
  | bind first bindings => rfl
  | data records =>
    rw [Message.parts, List.foldl_map]
    exact Packing.foldl_pack _ _ id writeSink (fun _ _ => rfl) b records
  | heartbeat h => rfl

/-! ## Receiving the datagrams of a message -/

namespace Node

/-- Takes in datagrams one after another. -/
def receiveAll (n : Node) (now : Instant) (port : Port) (source : Address)
    (datagrams : List Bytes) : Node :=
  datagrams.foldl (fun n bytes => n.receive now port source bytes) n

variable {n : Node} {sender : Station} {source : Address} {now : Instant}

/-- A leader takes in what a datagram of another node carries as if it were handed over. -/
theorem receive_manager_of_carries {bytes : Bytes} {m : Message}
    (h : Message.Carries sender bytes m) (hdevice : n.settings.station.device ≠ sender.device)
    (hrealm : n.settings.station.realm = sender.realm) (hrole : n.role = .leader) :
    n.receive now .manager source bytes = n.handOver source now m := by
  obtain ⟨header, hdecode, -⟩ := h.accepted n.settings.station hdevice hrealm
  have hlead : n.isLeading = true := by rw [isLeading, hrole]; rfl
  simp only [receive, h.whole, hlead, hdecode, if_true]

/-- A node takes in what a datagram of its leader carries. -/
theorem receive_link_of_carries {bytes : Bytes} {m : Message} {leader : DeviceId}
    (h : Message.Carries sender bytes m) (hdevice : n.settings.station.device ≠ sender.device)
    (hrealm : n.settings.station.realm = sender.realm) (hrole : n.role = .follower leader source) :
    n.receive now .link source bytes = { n with binder := n.binder.apply now m } := by
  obtain ⟨header, hdecode, -⟩ := h.accepted n.settings.station hdevice hrealm
  simp only [receive, h.whole, hrole, Binder.receive_of_decode hdecode]

@[simp] theorem settings_handOver (n : Node) (source : Address) (now : Instant) (m : Message) :
    (n.handOver source now m).settings = n.settings := by
  unfold handOver
  split <;> rfl

@[simp] theorem role_handOver (n : Node) (source : Address) (now : Instant) (m : Message) :
    (n.handOver source now m).role = n.role := by
  unfold handOver
  split <;> rfl

theorem receiveAll_manager_of_carries {datagrams : List Bytes} {parts : List Message}
    (h : List.Forall₂ (Message.Carries sender) datagrams parts)
    (hdevice : n.settings.station.device ≠ sender.device)
    (hrealm : n.settings.station.realm = sender.realm) (hrole : n.role = .leader) :
    n.receiveAll now .manager source datagrams =
      parts.foldl (fun n part => n.handOver source now part) n := by
  -- The node leads on under its settings, whatever was handed over.
  induction h generalizing n with
  | nil => rfl
  | cons hhead _ ih =>
    rw [receiveAll, List.foldl_cons, List.foldl_cons,
      receive_manager_of_carries hhead hdevice hrealm hrole]
    exact ih (by simpa using hdevice) (by simpa using hrealm) (by simpa using hrole)

theorem receiveAll_link_of_carries {datagrams : List Bytes} {parts : List Message}
    {leader : DeviceId} (h : List.Forall₂ (Message.Carries sender) datagrams parts)
    (hdevice : n.settings.station.device ≠ sender.device)
    (hrealm : n.settings.station.realm = sender.realm) (hrole : n.role = .follower leader source) :
    n.receiveAll now .link source datagrams =
      { n with binder := parts.foldl (fun b part => b.apply now part) n.binder } := by
  induction h generalizing n with
  | nil => rfl
  | cons hhead _ ih =>
    rw [receiveAll, List.foldl_cons, List.foldl_cons,
      receive_link_of_carries hhead hdevice hrealm hrole]
    exact ih hdevice hrealm hrole

/-- To hand over the parts of a message one after another is to hand over the message. -/
theorem handOver_parts (n : Node) (source : Address) (now : Instant) (m : Message) :
    m.parts.foldl (fun n part => n.handOver source now part) n = n.handOver source now m := by
  by_cases h : n.settings.coordinates = true
  · have hstep (c : Coordinator) (part : Message) :
        { n with coordinator := c }.handOver source now part =
          { n with coordinator := c.ingest source now part } := if_pos h
    calc _ = { n with coordinator := m.parts.foldl (·.ingest source now ·) n.coordinator } :=
          List.foldl_hom (fun c => { n with coordinator := c }) hstep
      _ = n.handOver source now m := by
          rw [Coordinator.ingest_parts, handOver, if_pos h]
  · rw [handOver, if_neg h]
    exact List.foldl_fixed' (fun _ => if_neg h) _

/-- The network makes no difference. A message whose items fit is written as datagrams, and
another node of the universe that takes these in becomes the node that it would have become
with the message itself: a leader as if the message had been handed over, which its
coordinator takes in; and a follower, as far as they come from its leader, with the message
applied to its bindings and values. -/
theorem network_equals_handover (sender : Station) (m : Message) (hm : m.Fits)
    (source : Address) (now : Instant) :
    ∃ datagrams, m.encode sender = .ok datagrams ∧
      ∀ n : Node, n.settings.station.device ≠ sender.device →
        n.settings.station.realm = sender.realm →
        (n.role = .leader →
          n.receiveAll now .manager source datagrams = n.handOver source now m ∧
          (n.settings.coordinates = true →
            n.receiveAll now .manager source datagrams =
              { n with coordinator := n.coordinator.ingest source now m })) ∧
        (∀ leader, n.role = .follower leader source →
          n.receiveAll now .link source datagrams =
            { n with binder := n.binder.apply now m }) := by
  obtain ⟨datagrams, hencode, hcarries⟩ := Message.carries_encode sender hm
  refine ⟨datagrams, hencode, fun n hdevice hrealm => ⟨fun hrole => ?_, fun leader hrole => ?_⟩⟩
  · have hhand : n.receiveAll now .manager source datagrams = n.handOver source now m := by
      rw [receiveAll_manager_of_carries hcarries hdevice hrealm hrole, handOver_parts]
    refine ⟨hhand, fun hcoordinates => ?_⟩
    rw [hhand, handOver, if_pos hcoordinates]
  · rw [receiveAll_link_of_carries hcarries hdevice hrealm hrole, Binder.apply_parts]

/-- Device 2 sends two values that take a datagram each, and a heartbeat with zeros among its
tags. A leader has a sample of both values, and knows the device by the tags 9 and 4. A node
that follows device 2 and has one of the keys as a sink holds the new value there, and its own
value under the other key. -/
theorem two_datagrams_and_zero_tags_from_network :
    let filled (byte : UInt8) : Value := ⟨⟨.u64, 75⟩, .replicate 600 byte, List.length_replicate⟩
    let values : Message := .data [⟨1, filled 7⟩, ⟨2, filled 8⟩]
    let alive : Message := .heartbeat ⟨5, [0, 9, 0, 4]⟩
    let store := (KeyStore.empty.define 1 (filled 0)).define 2 (filled 0)
    let fresh := start (.new 1 100) store fun _ => 0
    let sender : Station := ⟨2, fresh.settings.realm⟩
    let leading : Node := { fresh with role := .leader }
    let following : Node :=
      { fresh with
        role := .follower 2 .loopback
        binder := fresh.binder.apply 3 (.bind true [⟨1, 1000, .sink⟩]) }
    values.Fits ∧ alive.Fits ∧ ∃ datagrams beats,
      values.encode sender = .ok datagrams ∧ alive.encode sender = .ok beats ∧
      datagrams.length = 2 ∧
      let led := (leading.receiveAll 7 .manager .loopback datagrams).coordinator.aggregator.samples
      let known := (leading.receiveAll 7 .manager .loopback beats).coordinator.roster
      let held := (following.receiveAll 7 .link .loopback datagrams).binder.store.values
      led.entries = [(1, [⟨filled 7, 7⟩]), (2, [⟨filled 8, 7⟩])] ∧
      known.toList = [.new .loopback [9, 4] 5] ∧
      held.entries = [(1, filled 7), (2, filled 0)] := by
  intro filled values alive store fresh sender leading following
  have hvalues : values.Fits := by decide +kernel
  have halive : alive.Fits := by decide
  obtain ⟨datagrams, hencode, htaken⟩ :=
    network_equals_handover sender values hvalues .loopback 7
  obtain ⟨beats, hbeats, hheard⟩ := network_equals_handover sender alive halive .loopback 7
  have htwo : (values.encode sender).map List.length = .ok 2 := by decide +kernel
  rw [hencode] at htwo
  refine ⟨hvalues, halive, datagrams, beats, hencode, hbeats, Except.ok.inj htwo, ?_⟩
  rw [((htaken leading (by decide) rfl).1 rfl).2 (by decide),
    ((hheard leading (by decide) rfl).1 rfl).2 (by decide),
    (htaken following (by decide) rfl).2 2 rfl]
  decide +kernel

end Node

end LinkFabric
