import LinkFabric.Proofs.Aggregation
import LinkFabric.Proofs.Installation
import LinkFabric.Proofs.RegistryHistory

/-!
# Values go where they are awaited

The leader decides twice who receives the values of a link: when it works out the sinks of
its followers, and when it sends a value on. The first goes follower by follower, the second
value by value, and only then sorts the values by their receivers. Both come to the same,
as long as every follower is kept under its own address.

Main results:

* `Roster.heartbeat_cases`: a heartbeat is refused, or there was room and it is taken in.
* `Roster.placed_run`: followers are kept under their addresses after every run.
* `Coordinator.find?_group`: the values for an address are those that its follower receives.
* `Registry.sink_of_mem_fanout`, `Registry.targets_of_sink`: who is sent a value has a sink
  for it, and who has a sink is sent its values.
* `Coordinator.fanout_agrees_with_sinks`: all of this in one statement.
-/

namespace LinkFabric

/-! ## Followers under their addresses -/

namespace Roster

/-- A call of a roster. -/
inductive Call where
  | heartbeat (address : Address) (h : Heartbeat)
  | tick
  | clear

/-- The roster after a call. -/
def perform (r : Roster) : Call → Roster
  | .heartbeat address h => r.tryHeartbeat address h
  | .tick => r.tick.1
  | .clear => r.clear

/-- The roster after a run of calls. -/
def run (r : Roster) (calls : List Call) : Roster := calls.foldl perform r

/-- Whether a call is carried out. Only heartbeats are ever refused. -/
def accepts (r : Roster) : Call → Bool
  | .heartbeat address h => (r.heartbeat address h).isOk
  | .tick => true
  | .clear => true

/-- Every follower is kept under its address. -/
def Placed (r : Roster) : Prop := ∀ address f, r.find? address = some f → f.address = address

theorem placed_empty (limit : Nat) : (empty limit).Placed := by
  intro address f hf
  cases hf

/-- A heartbeat is refused and changes nothing, or it comes from a follower or finds room, and
then describes the follower at its address. -/
theorem heartbeat_cases (r : Roster) (address : Address) (h : Heartbeat) :
    r.accepts (.heartbeat address h) = false ∧ r.perform (.heartbeat address h) = r ∨
      r.accepts (.heartbeat address h) = true ∧
        (r.followers.contains address = true ∨ r.size < r.limit) ∧
        r.perform (.heartbeat address h) = { r with
          followers := r.followers.insert address (.new address h.tags h.serviceFlags) } := by
  simp only [accepts, perform, tryHeartbeat, heartbeat]
  split_ifs with hknown hfull
  · exact .inr ⟨rfl, .inl hknown, rfl⟩
  · exact .inl ⟨rfl, rfl⟩
  · exact .inr ⟨rfl, .inr (Nat.lt_of_not_le hfull), rfl⟩

/-- A cycle takes one cycle from every follower and drops those that have none left. -/
theorem find?_tick {r : Roster} {address : Address} {f : Follower} :
    r.tick.1.find? address = some f ↔
      ∃ held, r.find? address = some held ∧ 1 < held.timeout ∧
        f = { held with timeout := held.timeout - 1 } := by
  simp only [find?, tick, SortedMap.find?_filterMap, Option.bind_eq_some_iff]
  refine exists_congr fun held => and_congr_right fun _ => ?_
  split_ifs with hlast
  · simp [Nat.not_lt.mpr hlast]
  · simp [Nat.lt_of_not_le hlast, eq_comm]

theorem Placed.perform {r : Roster} (hr : r.Placed) (call : Call) : (r.perform call).Placed := by
  intro address f hf
  cases call with
  | heartbeat source h =>
    rcases r.heartbeat_cases source h with ⟨_, hsame⟩ | ⟨_, _, hafter⟩
    · rw [hsame] at hf
      exact hr address f hf
    · rw [hafter, find?, SortedMap.find?_insert] at hf
      split_ifs at hf with hrank
      · obtain rfl := Option.some.inj hf
        exact Ranked.eq_of_rank_eq hrank
      · exact hr address f hf
  | tick =>
    obtain ⟨held, hheld, _, rfl⟩ := find?_tick.mp hf
    exact hr address held hheld
  | clear => cases hf

theorem placed_run (limit : Nat) (calls : List Call) : ((empty limit).run calls).Placed :=
  List.foldlRecOn (motive := Placed) calls perform (placed_empty limit) fun _ h call _ =>
    h.perform call

/-- The addresses of the followers are the keys that they are kept under. -/
theorem Placed.addresses {r : Roster} (h : r.Placed) :
    r.toList.map (·.address) = r.followers.keys := by
  rw [toList, SortedMap.values, List.map_map]
  refine List.map_congr_left fun p hp => ?_
  exact h p.1 p.2 (r.followers.mem_entries_iff.mp hp)

/-- A value is for the address of every follower that its query selects. -/
theorem Placed.mem_targets_iff {r : Roster} (h : r.Placed) {g : Fanout} {address : Address} :
    address ∈ g.targets r.toList ↔
      ∃ f, r.find? address = some f ∧ g.query.selects f.tags = true := by
  simp only [Fanout.targets, toList, List.mem_map, List.mem_filter, SortedMap.mem_values_iff]
  constructor
  · rintro ⟨f, ⟨⟨key, hfind⟩, hselects⟩, rfl⟩
    obtain rfl := h key f hfind
    exact ⟨f, hfind, hselects⟩
  · rintro ⟨f, hfind, hselects⟩
    exact ⟨f, ⟨⟨address, hfind⟩, hselects⟩, h address f hfind⟩

/-- A value is for no address twice. -/
theorem Placed.nodup_targets {r : Roster} (h : r.Placed) (g : Fanout) :
    (g.targets r.toList).Nodup := by
  refine List.Nodup.sublist (List.filter_sublist.map _) ?_
  rw [h.addresses]
  exact r.followers.nodup_keys

end Roster

/-! ## Sorting values by receivers -/

namespace Coordinator

/-- The values that a follower receives, in their order. -/
def recordsFor (due : List Fanout) (f : Follower) : List Datum :=
  (due.filter fun g => g.query.selects f.tags).map fun g => ⟨g.destKey, g.value⟩

/-- A value joins those for each of some different addresses. -/
theorem find?_foldl_address {addresses : List Address} (h : addresses.Nodup) (d : Datum)
    (byTarget : SortedMap Address (List Datum)) (address : Address) :
    (addresses.foldl (fun m a => m.insert a ((m.find? a).getD [] ++ [d])) byTarget).find? address =
      if address ∈ addresses then some ((byTarget.find? address).getD [] ++ [d])
      else byTarget.find? address := by
  induction addresses generalizing byTarget with
  | nil => simp
  | cons a rest ih =>
    rw [List.nodup_cons] at h
    rw [List.foldl_cons, ih h.2]
    by_cases ha : a = address
    · -- The address does not come again, so its list grows by this one value.
      subst ha
      rw [if_neg h.1, if_pos List.mem_cons_self, SortedMap.find?_insert_self]
    · simp [SortedMap.find?_insert_of_ne _ _ ha, Ne.symm ha]

/-- The values for an address come after those held for it, if any come. -/
theorem find?_foldl_due {followers : List Follower} {address : Address} {receives : Fanout → Bool}
    (hnodup : ∀ g : Fanout, (g.targets followers).Nodup)
    (hreceives : ∀ g : Fanout, address ∈ g.targets followers ↔ receives g = true)
    (due : List Fanout) {byTarget : SortedMap Address (List Datum)} {held : List Datum}
    (hheld : byTarget.find? address = Option.guard (!·.isEmpty) held) :
    (due.foldl
      (fun m g => (g.targets followers).foldl
        (fun m a => m.insert a ((m.find? a).getD [] ++ [⟨g.destKey, g.value⟩])) m)
      byTarget).find? address =
    Option.guard (!·.isEmpty)
      (held ++ (due.filter receives).map fun g => ⟨g.destKey, g.value⟩) := by
  -- An address is in the table only once a value came for it, so the empty list stands for
  -- an address that is not there.
  induction due generalizing byTarget held with
  | nil => simpa using hheld
  | cons g due ih =>
    have hbefore : (byTarget.find? address).getD [] = held := by
      rw [hheld]
      cases held <;> rfl
    rw [List.foldl_cons]
    by_cases hg : receives g = true
    · rw [List.filter_cons_of_pos hg, List.map_cons, List.append_cons]
      apply ih
      rw [find?_foldl_address (hnodup g), if_pos ((hreceives g).mpr hg), hbefore]
      simp [Option.guard]
    · rw [List.filter_cons_of_neg hg]
      apply ih
      rw [find?_foldl_address (hnodup g), if_neg fun hmem => hg ((hreceives g).mp hmem), hheld]

/-- The values for an address are those that its follower receives, if there are any. -/
theorem find?_group {r : Roster} (hr : r.Placed) (due : List Fanout) (address : Address) :
    (group due r.toList).find? address =
      (r.find? address).bind fun f => Option.guard (!·.isEmpty) (recordsFor due f) := by
  -- At most one follower is kept under the address; if there is none, nothing is received.
  have hreceives (g : Fanout) : address ∈ g.targets r.toList ↔
      (r.find? address).any (fun f => g.query.selects f.tags) = true := by
    rw [hr.mem_targets_iff, Option.any_eq_true]
  have hempty : (SortedMap.empty : SortedMap Address (List Datum)).find? address =
      Option.guard (!·.isEmpty) [] := rfl
  rw [group, find?_foldl_due hr.nodup_targets hreceives due hempty]
  cases r.find? address with
  | none => simp [Option.guard]
  | some f => rfl

/-- Every follower that receives values is sent them in one message, and nobody else is sent
anything. -/
theorem mem_fanout_iff {c : Coordinator} (hr : c.roster.Placed) {now : Instant} {d : Delivery} :
    d ∈ (c.fanout now).2 ↔
      ∃ f, c.roster.find? d.address = some f ∧
        recordsFor (c.aggregator.fanout c.registry now).2 f ≠ [] ∧
        d.message = .data (recordsFor (c.aggregator.fanout c.registry now).2 f) := by
  obtain ⟨address, message⟩ := d
  simp only [fanout, List.mem_map, Prod.exists, SortedMap.mem_entries_iff, find?_group hr,
    Option.bind_eq_some_iff, Option.guard_eq_some_iff, Delivery.mk.injEq]
  constructor
  · rintro ⟨_, _, ⟨f, hfind, rfl, hsome⟩, rfl, rfl⟩
    exact ⟨f, hfind, by simpa using hsome, rfl⟩
  · rintro ⟨f, hfind, hsome, rfl⟩
    exact ⟨address, _, ⟨f, hfind, rfl, by simpa using hsome⟩, rfl, rfl⟩

theorem ascending_fanout (c : Coordinator) (now : Instant) :
    (c.fanout now).2.Pairwise fun d e => Ranked.rank d.address < Ranked.rank e.address :=
  List.pairwise_map.mpr (SortedMap.ascending _)

end Coordinator

namespace Aggregator

/-- Links give their values in the order of their names. -/
theorem ascending_fanout (a : Aggregator) (registry : Registry) (now : Instant) :
    (a.fanout registry now).2.Pairwise fun g h => g.link < h.link := by
  refine registry.entries.ascending.filterMap _ ?_
  intro p q hpq g hg h hh
  obtain ⟨_, _, _, _, rfl⟩ := fanoutOf_eq_some_iff.mp hg
  obtain ⟨_, _, _, _, rfl⟩ := fanoutOf_eq_some_iff.mp hh
  exact UInt64.lt_iff_toNat_lt.mpr hpq

/-- A value goes by what its link says of receivers. -/
theorem receivers_of_mem_fanout {a : Aggregator} {registry : Registry} {now : Instant}
    {g : Fanout} (hg : g ∈ (a.fanout registry now).2) :
    ∃ e, registry.find? g.link = some e ∧ (e.link.mode = .recv ∨ e.link.mode = .sync) ∧
      g.destKey = e.link.destKey ∧ g.query = e.link.query := by
  obtain ⟨e, hfind, hgives⟩ := mem_fanout_iff.mp hg
  obtain ⟨hmode, _, value, _, heq⟩ := fanoutOf_eq_some_iff.mp hgives
  refine ⟨e, hfind, ?_, heq ▸ rfl, heq ▸ rfl⟩
  cases h : e.link.mode with
  | send => exact absurd h hmode
  | recv => exact .inl rfl
  | sync => exact .inr rfl

end Aggregator

/-! ## Sinks and receivers -/

namespace Registry

variable {r : Registry} {f : Follower} {a : Aggregator} {now : Instant}

/-- A follower has a sink for every value that it is sent. -/
theorem sink_of_mem_fanout {g : Fanout} (hg : g ∈ (a.fanout r now).2)
    (hselects : g.query.selects f.tags = true) :
    ∃ e, r.find? g.link = some e ∧ g.destKey = e.link.destKey ∧
      ⟨g.destKey, e.link.rate.ms, .sink⟩ ∈ r.bindingsFor f := by
  obtain ⟨e, hfind, hmode, hkey, hquery⟩ := Aggregator.receivers_of_mem_fanout hg
  have hvalues : e ∈ r.entries.values := r.entries.mem_values_iff.mpr ⟨g.link, hfind⟩
  rw [hquery] at hselects
  rw [hkey]
  exact ⟨e, hfind, rfl, (sink_mem_bindingsFor_iff.mpr ⟨e, hvalues, hmode, hselects, rfl⟩).1⟩

/-- A follower that has a sink is sent what the link of the sink gives, and the link gives a
value as soon as it is due and has something to read. -/
theorem targets_of_sink (a : Aggregator) (now : Instant) {roster : Roster}
    (hroster : roster.Placed) {address : Address}
    (hfollower : roster.find? address = some f) {b : Binding} (hb : b ∈ r.bindingsFor f)
    (hrole : b.role = .sink) :
    ∃ id e, r.find? id = some e ∧ (e.link.mode = .recv ∨ e.link.mode = .sync) ∧
      b = ⟨e.link.destKey, e.link.rate.ms, .sink⟩ ∧
      (∀ g ∈ (a.fanout r now).2, g.link = id →
        g.destKey = b.key ∧ address ∈ g.targets roster.toList) ∧
      (Aggregator.isDue e.link (a.lastFanout.find? id) now = true → a.unread id e.link ≠ [] →
        ∃ g ∈ (a.fanout r now).2, g.link = id) := by
  obtain ⟨e, hvalues, hmode, hselects, rfl⟩ := sink_mem_bindingsFor_iff.mp ⟨hb, hrole⟩
  obtain ⟨id, hfind⟩ := r.entries.mem_values_iff.mp hvalues
  refine ⟨id, e, hfind, hmode, rfl, ?_, ?_⟩
  · rintro g hg rfl
    obtain ⟨e', hfind', _, hkey, hquery⟩ := Aggregator.receivers_of_mem_fanout hg
    obtain rfl : e = e' := Option.some.inj (hfind.symm.trans hfind')
    refine ⟨hkey, hroster.mem_targets_iff.mpr ⟨f, hfollower, ?_⟩⟩
    rw [hquery]
    exact hselects
  · intro hdue hunread
    obtain ⟨s, hs⟩ := List.exists_mem_of_ne_nil _ hunread
    have hgives : e.link.mode ≠ .send := by
      rcases hmode with hmode | hmode <;> simp [hmode]
    exact Aggregator.exists_mem_fanout hfind hgives hdue hs

end Registry

/-- Whatever links and followers a leader came to know, and whatever values it holds, it
sends each follower one message with the values that are due and whose query selects the
follower, in the order of the links' names; who receives none is sent none. The follower has
a sink for each of these values, at the rate of its link. And a sink of a follower is that of
a link that receives, all of whose values are for the follower. -/
theorem Coordinator.fanout_agrees_with_sinks (limits : RegistryLimits)
    (registryCalls : List Registry.Call) (maxFollowers : Nat) (rosterCalls : List Roster.Call)
    (aggregator : Aggregator) (chunk : Nat) (now : Instant) :
    let registry := (Registry.empty limits).run registryCalls
    let roster := (Roster.empty maxFollowers).run rosterCalls
    let due := (aggregator.fanout registry now).2
    let deliveries := (fanout ⟨registry, roster, aggregator, chunk⟩ now).2
    due.Pairwise (fun g h => g.link < h.link) ∧
    deliveries.Pairwise (fun d e => Ranked.rank d.address < Ranked.rank e.address) ∧
    (∀ d, d ∈ deliveries ↔ ∃ f, roster.find? d.address = some f ∧
      recordsFor due f ≠ [] ∧ d.message = .data (recordsFor due f)) ∧
    ∀ address f, roster.find? address = some f →
      (∀ g ∈ due, g.query.selects f.tags = true →
        ∃ e, registry.find? g.link = some e ∧ e.link.id = g.link ∧ g.destKey = e.link.destKey ∧
          ⟨g.destKey, e.link.rate.ms, .sink⟩ ∈ (registry.chunksFor chunk f).flatten) ∧
      (∀ b ∈ (registry.chunksFor chunk f).flatten, b.role = .sink →
        ∃ e, registry.find? e.link.id = some e ∧
          (e.link.mode = .recv ∨ e.link.mode = .sync) ∧
          b = ⟨e.link.destKey, e.link.rate.ms, .sink⟩ ∧
          (∀ g ∈ due, g.link = e.link.id →
            g.destKey = b.key ∧ address ∈ g.targets roster.toList) ∧
          (Aggregator.isDue e.link (aggregator.lastFanout.find? e.link.id) now = true →
            aggregator.unread e.link.id e.link ≠ [] → ∃ g ∈ due, g.link = e.link.id)) := by
  intro registry roster due deliveries
  have hregistry : registry.Sound := Registry.sound_run limits registryCalls
  have hroster : roster.Placed := Roster.placed_run maxFollowers rosterCalls
  refine ⟨aggregator.ascending_fanout registry now, ascending_fanout _ now,
    fun d => mem_fanout_iff hroster, fun address f hfollower => ⟨?_, ?_⟩⟩
  · intro g hg hselects
    obtain ⟨e, hfind, hkey, hsink⟩ := Registry.sink_of_mem_fanout hg hselects
    rw [registry.flatten_chunksFor]
    exact ⟨e, hfind, (hregistry _ e hfind).named, hkey, hsink⟩
  · intro b hb hrole
    rw [registry.flatten_chunksFor] at hb
    obtain ⟨id, e, hfind, hmode, hbinding, htargets, hgives⟩ :=
      Registry.targets_of_sink aggregator now hroster hfollower hb hrole
    obtain rfl := (hregistry id e hfind).named
    exact ⟨e, hfind, hmode, hbinding, htargets, hgives⟩

/-- A value for the nodes with tag 4. Of two followers one has the tag; it is sent the value
and has the sink. -/
theorem Coordinator.value_sent_to_tagged_follower :
    let query : TagQuery := .ofSlots #v[4, 0, 0, 0, 0, 0, 0, 0]
    let link : Link := { Link.new .recv 1 2 with query, rate := .clamp 100 }
    let registry := (Registry.empty {}).run [.update link (.v4 9)]
    let roster :=
      (Roster.empty 8).run [.heartbeat (.v4 1) ⟨0, [7, 4]⟩, .heartbeat (.v4 2) ⟨0, [5]⟩]
    let aggregator := Aggregator.empty.ingest 1 (.ofWord32 3) 0
    let deliveries := (fanout ⟨registry, roster, aggregator, 147⟩ 0).2
    ⟨.v4 1, .data [⟨2, .ofWord32 3⟩]⟩ ∈ deliveries ∧
    (∀ d ∈ deliveries, d.address ≠ .v4 2) ∧
    ⟨2, 100, .sink⟩ ∈ (registry.chunksFor 147 ⟨.v4 1, [7, 4], 0, 5⟩).flatten := by
  intro query link registry roster aggregator deliveries
  have hdue : (aggregator.fanout registry 0).2 = [⟨link.id, 2, query, .ofWord32 3⟩] := by
    decide +kernel
  have htagged : roster.find? (.v4 1) = some ⟨.v4 1, [7, 4], 0, 5⟩ := by decide
  have hother : roster.find? (.v4 2) = some ⟨.v4 2, [5], 0, 5⟩ := by decide
  obtain ⟨-, -, hsent, hsinks⟩ := fanout_agrees_with_sinks {} [.update link (.v4 9)] 8
    [.heartbeat (.v4 1) ⟨0, [7, 4]⟩, .heartbeat (.v4 2) ⟨0, [5]⟩] aggregator 147 0
  rw [show (aggregator.fanout _ 0).2 = _ from hdue] at hsent hsinks
  refine ⟨?_, ?_, ?_⟩
  · exact (hsent _).mpr ⟨_, htagged, by decide, by decide⟩
  · intro d hd haddress
    obtain ⟨f, hfind, hsome, -⟩ := (hsent d).mp hd
    rw [haddress] at hfind
    obtain rfl := Option.some.inj (hother.symm.trans hfind)
    exact hsome (by decide)
  · obtain ⟨e, hfind, -, -, hsink⟩ :=
      (hsinks _ _ htagged).1 _ (List.mem_singleton_self _) (by decide)
    have hlisted : registry.find? link.id = some ⟨link, [⟨.v4 9, 60⟩]⟩ := by decide +kernel
    obtain rfl := Option.some.inj (hlisted.symm.trans hfind)
    exact hsink

end LinkFabric
