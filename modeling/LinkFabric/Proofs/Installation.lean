import LinkFabric.Coordination.Coordinator
import LinkFabric.Node.Binder
import LinkFabric.Proofs.BindingTable
import LinkFabric.Proofs.RoundTrip
import Mathlib.Data.List.Induction
import Mathlib.Tactic.Choose

/-!
# Assignments arrive as they were worked out

In a coordination cycle a follower's bindings are cut into messages, the messages cross
the network, and the node merges them into its table. The table then holds the bindings
that were worked out from the links of the fleet, each key and role once, however the
bindings were cut and whatever the table held before.

Main results:

* `BindingTable.foldl_merge_eq`: merging bindings one after another consolidates them.
* `Registry.exists_source_iff`, `Registry.exists_sink_iff`: which keys a follower sends and
  receives, in terms of the links of the fleet.
* `cycle_installs_assignment`: what a cycle leaves in the table of the node.
-/

namespace LinkFabric

/-! ## Merging -/

namespace BindingTable

/-- What a binding is about. -/
def slot (b : Binding) : Key × BindingRole := (b.key, b.role)

/-- The last binding about a key and role. -/
def latest? (l : List Binding) (s : Key × BindingRole) : Option Binding :=
  l.reverse.find? fun b => decide (slot b = s)

/-- One binding for each key and role: the last, at the place of the first. -/
def consolidate (l : List Binding) : List Binding :=
  (l.map slot).eraseDups.filterMap (latest? l)

theorem slot_eq_iff {a b : Binding} : slot a = slot b ↔ a.key = b.key ∧ a.role = b.role :=
  Prod.ext_iff

theorem merge_of_not_mem {l : List Binding} {b : Binding} (h : slot b ∉ l.map slot) :
    merge l b = l ++ [b] := by
  induction l with
  | nil => rfl
  | cons held rest ih =>
    rw [List.map_cons, List.mem_cons, not_or] at h
    rw [merge, if_neg fun hsame => h.1 (slot_eq_iff.mpr hsame).symm, ih h.2, List.cons_append]

/-- Where a binding about the same is held, it is replaced. -/
theorem merge_of_mem {l : List Binding} (hl : Unambiguous l) {b : Binding}
    (h : slot b ∈ l.map slot) :
    merge l b = l.map fun c => if slot c = slot b then b else c := by
  induction l with
  | nil => cases h
  | cons held rest ih =>
    obtain ⟨hhead, htail⟩ := List.pairwise_cons.mp hl
    rw [merge, List.map_cons]
    by_cases hsame : slot held = slot b
    · obtain ⟨hkey, hrole⟩ := slot_eq_iff.mp hsame
      have hrest : rest.map (fun c => if slot c = slot b then b else c) = rest := by
        refine Eq.trans (List.map_congr_left fun c hc => if_neg fun hslot => ?_) (List.map_id rest)
        exact hhead c hc (slot_eq_iff.mp (hsame.trans hslot.symm))
      have hreplace : { held with rate := b.rate } = b := by
        rw [hkey, hrole]
      rw [if_pos ⟨hkey, hrole⟩, if_pos hsame, hrest, hreplace]
    · have hmem : slot b ∈ rest.map slot := by
        rw [List.map_cons, List.mem_cons] at h
        exact h.resolve_left (Ne.symm hsame)
      rw [if_neg fun hboth => hsame (slot_eq_iff.mpr hboth), if_neg hsame, ih htail hmem]

theorem latest?_append_singleton (l : List Binding) (b : Binding) (s : Key × BindingRole) :
    latest? (l ++ [b]) s = if slot b = s then some b else latest? l s := by
  unfold latest?
  rw [List.reverse_append, List.reverse_singleton, List.singleton_append, List.find?_cons]
  by_cases h : slot b = s <;> simp [h]

theorem exists_latest? {l : List Binding} {s : Key × BindingRole} (h : s ∈ l.map slot) :
    ∃ b, latest? l s = some b ∧ slot b = s := by
  obtain ⟨c, hc, hslot⟩ := List.mem_map.mp h
  have hsome : (latest? l s).isSome = true := by
    unfold latest?
    rw [List.find?_isSome]
    exact ⟨c, List.mem_reverse.mpr hc, decide_eq_true hslot⟩
  obtain ⟨b, hb⟩ := Option.isSome_iff_exists.mp hsome
  have hslot : decide (slot b = s) = true := List.find?_some (p := fun b => decide (slot b = s)) hb
  exact ⟨b, hb, of_decide_eq_true hslot⟩

theorem eraseDups_append_singleton {l : List (Key × BindingRole)} {s : Key × BindingRole} :
    (l ++ [s]).eraseDups = if s ∈ l then l.eraseDups else l.eraseDups ++ [s] := by
  rw [List.eraseDups_append]
  split_ifs with h
  · have hnone : [s].removeAll l = [] := by simp [List.removeAll, h]
    rw [hnone, List.eraseDups_nil, List.append_nil]
  · have hone : [s].removeAll l = [s] := by simp [List.removeAll, h]
    rw [hone]
    rfl

theorem map_slot_consolidate (l : List Binding) :
    (consolidate l).map slot = (l.map slot).eraseDups := by
  unfold consolidate
  rw [List.map_filterMap]
  refine Eq.trans (List.filterMap_congr fun s hs => ?_) List.filterMap_some
  obtain ⟨b, hb, hslot⟩ := exists_latest? (List.mem_eraseDups.mp hs)
  rw [hb, Option.map_some, hslot]

/-- A binding more: it takes the place of one about the same, or comes last. -/
theorem consolidate_append_singleton (l : List Binding) (b : Binding) :
    consolidate (l ++ [b]) =
      if slot b ∈ l.map slot then (consolidate l).map fun c => if slot c = slot b then b else c
      else consolidate l ++ [b] := by
  have hlatest : ∀ s ∈ (l.map slot).eraseDups, latest? (l ++ [b]) s =
      (latest? l s).map fun c => if slot c = slot b then b else c := by
    intro s hs
    obtain ⟨c, hc, rfl⟩ := exists_latest? (List.mem_eraseDups.mp hs)
    rw [latest?_append_singleton, hc, Option.map_some]
    split_ifs with h h' h'
    · rfl
    · exact absurd h.symm h'
    · exact absurd h'.symm h
    · rfl
  unfold consolidate
  rw [List.map_append, List.map_singleton, eraseDups_append_singleton]
  split_ifs with h
  · rw [List.map_filterMap]
    exact List.filterMap_congr hlatest
  · rw [List.filterMap_append]
    congr 1
    · refine List.filterMap_congr fun s hs => ?_
      rw [latest?_append_singleton, if_neg]
      rintro rfl
      exact h (List.mem_eraseDups.mp hs)
    · rw [List.filterMap_cons, latest?_append_singleton, if_pos rfl]
      rfl

/-- Merging bindings into an empty table consolidates them. -/
theorem foldl_merge_eq (l : List Binding) : l.foldl merge [] = consolidate l := by
  induction l using List.reverseRecOn with
  | nil => rfl
  | append_singleton l b ih =>
    have hone : Unambiguous (consolidate l) := ih ▸ unambiguous_foldl_merge .nil l
    have hslots : slot b ∈ (consolidate l).map slot ↔ slot b ∈ l.map slot := by
      rw [map_slot_consolidate, List.mem_eraseDups]
    rw [List.foldl_append, ih, List.foldl_cons, List.foldl_nil, consolidate_append_singleton]
    split_ifs with h
    · exact merge_of_mem hone (hslots.mpr h)
    · exact merge_of_not_mem fun hmem => h (hslots.mp hmem)

theorem isSink_iff {t : BindingTable} {key : Key} :
    t.isSink key = true ↔ ∃ b ∈ t.bindings, b.role = .sink ∧ b.key = key := by
  unfold isSink
  simp only [List.any_eq_true, Bool.and_eq_true, beq_iff_eq]
  exact exists_congr fun b => and_congr_right fun _ => and_comm

/-- The bindings after some messages. -/
def bindingsAfter (held : List Binding) (messages : List (Bool × List Binding)) : List Binding :=
  messages.foldl (fun held m => m.2.foldl merge (if m.1 then [] else held)) held

theorem bindingsAfter_rest (held : List Binding) (chunks : List (List Binding)) {n : Nat}
    (hn : 0 < n) :
    bindingsAfter held ((chunks.zipIdx n).map fun p => (p.2 == 0, p.1)) =
      chunks.flatten.foldl merge held := by
  induction chunks generalizing held n with
  | nil => rfl
  | cons chunk chunks ih =>
    have hlater : (n == 0) = false := beq_false_of_ne (Nat.ne_of_gt hn)
    rw [List.zipIdx_cons, List.map_cons, List.flatten_cons, List.foldl_append, hlater]
    exact ih (chunk.foldl merge held) (Nat.succ_pos n)

/-- The messages of an assignment that is cut into chunks leave what they hold together. -/
theorem bindingsAfter_chunks (held : List Binding) {chunks : List (List Binding)}
    (h : chunks ≠ []) :
    bindingsAfter held (chunks.zipIdx.map fun p => (p.2 == 0, p.1)) =
      consolidate chunks.flatten := by
  cases chunks with
  | nil => exact absurd rfl h
  | cons chunk chunks =>
    rw [List.zipIdx_cons, List.map_cons, List.flatten_cons, ← foldl_merge_eq, List.foldl_append]
    exact bindingsAfter_rest (chunk.foldl merge []) chunks Nat.one_pos

end BindingTable

/-! ## The bindings of a follower -/

theorem RegistryEntry.mem_sourceFor {e : RegistryEntry} {f : Follower} {b : Binding} :
    b ∈ e.sourceFor f ↔
      e.hasContributor f.address = true ∧ b = ⟨e.link.sourceKey, e.link.rate.ms, .source⟩ := by
  unfold RegistryEntry.sourceFor
  split_ifs with h <;> simp [h]

theorem RegistryEntry.mem_sinkFor {e : RegistryEntry} {f : Follower} {b : Binding} :
    b ∈ e.sinkFor f ↔
      e.link.query.selects f.tags = true ∧ b = ⟨e.link.destKey, e.link.rate.ms, .sink⟩ := by
  unfold RegistryEntry.sinkFor
  split_ifs with h <;> simp [h]

theorem RegistryEntry.mem_bindingsFor {e : RegistryEntry} {f : Follower} {b : Binding} :
    b ∈ e.bindingsFor f ↔
      (e.link.mode = .send ∨ e.link.mode = .sync) ∧ b ∈ e.sourceFor f ∨
        (e.link.mode = .recv ∨ e.link.mode = .sync) ∧ b ∈ e.sinkFor f := by
  unfold RegistryEntry.bindingsFor
  cases e.link.mode <;> simp

namespace Registry

theorem mem_bindingsFor {r : Registry} {f : Follower} {b : Binding} :
    b ∈ r.bindingsFor f ↔ ∃ e ∈ r.entries.values, b ∈ e.bindingsFor f :=
  List.mem_flatMap

/-- A follower sends the source keys of the links that it offers. -/
theorem exists_source_iff {r : Registry} {f : Follower} {key : Key} :
    (∃ b ∈ r.bindingsFor f, b.role = .source ∧ b.key = key) ↔
      ∃ e ∈ r.entries.values, (e.link.mode = .send ∨ e.link.mode = .sync) ∧
        e.link.sourceKey = key ∧ ∃ c ∈ e.contributors, c.address = f.address := by
  constructor
  · rintro ⟨b, hb, hrole, hkey⟩
    obtain ⟨e, he, hb⟩ := mem_bindingsFor.mp hb
    rcases RegistryEntry.mem_bindingsFor.mp hb with ⟨hmode, hb⟩ | ⟨_, hb⟩
    · obtain ⟨hlisted, rfl⟩ := RegistryEntry.mem_sourceFor.mp hb
      exact ⟨e, he, hmode, hkey, RegistryEntry.hasContributor_iff.mp hlisted⟩
    · obtain ⟨_, rfl⟩ := RegistryEntry.mem_sinkFor.mp hb
      cases hrole
  · rintro ⟨e, he, hmode, hkey, hlisted⟩
    have hb := RegistryEntry.mem_sourceFor.mpr ⟨RegistryEntry.hasContributor_iff.mpr hlisted, rfl⟩
    exact ⟨_, mem_bindingsFor.mpr ⟨e, he, RegistryEntry.mem_bindingsFor.mpr (Or.inl ⟨hmode, hb⟩)⟩,
      rfl, hkey⟩

/-- The sinks of a follower are those of the links whose query selects it. -/
theorem sink_mem_bindingsFor_iff {r : Registry} {f : Follower} {b : Binding} :
    b ∈ r.bindingsFor f ∧ b.role = .sink ↔
      ∃ e ∈ r.entries.values, (e.link.mode = .recv ∨ e.link.mode = .sync) ∧
        e.link.query.selects f.tags = true ∧ b = ⟨e.link.destKey, e.link.rate.ms, .sink⟩ := by
  constructor
  · rintro ⟨hb, hrole⟩
    obtain ⟨e, he, hb⟩ := mem_bindingsFor.mp hb
    rcases RegistryEntry.mem_bindingsFor.mp hb with ⟨_, hb⟩ | ⟨hmode, hb⟩
    · obtain ⟨_, rfl⟩ := RegistryEntry.mem_sourceFor.mp hb
      cases hrole
    · exact ⟨e, he, hmode, RegistryEntry.mem_sinkFor.mp hb⟩
  · rintro ⟨e, he, hmode, hselects, rfl⟩
    have hb := RegistryEntry.mem_sinkFor.mpr ⟨hselects, rfl⟩
    exact ⟨mem_bindingsFor.mpr ⟨e, he, RegistryEntry.mem_bindingsFor.mpr (Or.inr ⟨hmode, hb⟩)⟩, rfl⟩

/-- A follower receives the destination keys of the links whose query selects it. -/
theorem exists_sink_iff {r : Registry} {f : Follower} {key : Key} :
    (∃ b ∈ r.bindingsFor f, b.role = .sink ∧ b.key = key) ↔
      ∃ e ∈ r.entries.values, (e.link.mode = .recv ∨ e.link.mode = .sync) ∧
        e.link.destKey = key ∧ ∀ tag ∈ e.link.query.tags, tag ∈ f.tags := by
  constructor
  · rintro ⟨b, hb, hrole, hkey⟩
    obtain ⟨e, he, hmode, hselects, rfl⟩ := sink_mem_bindingsFor_iff.mp ⟨hb, hrole⟩
    exact ⟨e, he, hmode, hkey, (TagQuery.selects_iff _ _).mp hselects⟩
  · rintro ⟨e, he, hmode, hkey, hselects⟩
    obtain ⟨hb, hrole⟩ := sink_mem_bindingsFor_iff.mpr
      ⟨e, he, hmode, (TagQuery.selects_iff _ _).mpr hselects, rfl⟩
    exact ⟨_, hb, hrole, hkey⟩

theorem flatten_chunksFor (r : Registry) (n : Nat) (f : Follower) :
    (r.chunksFor n f).flatten = r.bindingsFor f := by
  rw [chunksFor_eq]
  exact Packing.flatten_pack _ _ _

theorem length_le_of_mem_chunksFor {r : Registry} {n : Nat} {f : Follower} {chunk : List Binding}
    (h : chunk ∈ r.chunksFor n f) : chunk.length ≤ Message.maxBindings := by
  have hsize : chunkSize n ≤ Message.maxBindings := by
    have : 1 ≤ Message.maxBindings := by decide
    unfold chunkSize
    omega
  rw [chunksFor_eq] at h
  exact Nat.le_trans (Packing.length_le_of_mem_chunks (chunkSize_pos n) h) hsize

end Registry

/-! ## From the leader's table to the node's -/

namespace Binder

/-- Hears datagrams of the leader that the node follows, each at its time. -/
def hear (b : Binder) (node : Station) (leader : DeviceId) (source : Address)
    (arrivals : List (Bytes × Instant)) : Binder :=
  arrivals.foldl (fun b a => b.receive node (.follower leader source) source a.1 a.2) b

theorem bindings_hear {node : Station} {leader : DeviceId} {source : Address}
    {messages : List (Bool × List Binding)} {arrivals : List (Bytes × Instant)}
    (h : List.Forall₂ (fun m a => ∃ header, Message.decode node a.1 = .ok (header, .bind m.1 m.2))
      messages arrivals) (b : Binder) :
    (b.hear node leader source arrivals).table.bindings =
      BindingTable.bindingsAfter b.table.bindings messages := by
  induction h generalizing b with
  | nil => rfl
  | @cons m a messages arrivals hm _ ih =>
    obtain ⟨header, hdecode⟩ := hm
    have hreceive : b.receive node (.follower leader source) source a.1 a.2 =
        { b with table := b.table.apply m.1 m.2 a.2 } := receive_of_decode hdecode b leader a.2
    have hstep := ih (b.receive node (.follower leader source) source a.1 a.2)
    rw [hreceive] at hstep
    unfold hear at hstep ⊢
    rw [List.foldl_cons, hreceive, hstep]
    rfl

end Binder

/-- Every message of an assignment is one datagram, which the node reads. -/
theorem carries_deliveries (leader : Station) (r : Registry) (n : Nat) (f : Follower) :
    ∃ datagrams : List Bytes,
      List.Forall₂ (fun d bytes => d.message.encode leader = .ok [bytes])
        (Coordinator.deliveries ⟨f.address, r.chunksFor n f⟩) datagrams ∧
      List.Forall₂ (fun m bytes => Message.Carries leader bytes (.bind m.1 m.2))
        ((r.chunksFor n f).zipIdx.map fun p => (p.2 == 0, p.1)) datagrams := by
  have hchunk : ∀ p ∈ (r.chunksFor n f).zipIdx, ∃ bytes,
      Message.encodeBind leader (p.2 == 0) p.1 = .ok bytes ∧
        Message.Carries leader bytes (.bind (p.2 == 0) p.1) := by
    intro p hp
    have hlength := Registry.length_le_of_mem_chunksFor (List.fst_mem_of_mem_zipIdx hp)
    exact Message.carries_encodeBind leader (p.2 == 0) hlength
  choose! write hwrite using hchunk
  refine ⟨(r.chunksFor n f).zipIdx.map write, ?_, ?_⟩
  · unfold Coordinator.deliveries
    rw [List.forall₂_map_left_iff, List.forall₂_map_right_iff, List.forall₂_same]
    intro p hp
    simp only [Message.encode, (hwrite p hp).1, Except.map]
  · rw [List.forall₂_map_left_iff, List.forall₂_map_right_iff, List.forall₂_same]
    exact fun p hp => (hwrite p hp).2

/-- A leader's cycle reaches a node of its universe. Every chunk can be written, and every
message of the assignment is one datagram. When the node that follows the leader has heard
them all in order, at whatever times, its table holds the consolidated bindings. Neither
the wished chunk size `n` nor what the node `b` held before plays a part. The sinks are the
destinations of links whose query selects the follower, the sources are the source keys of
links that list it. -/
theorem cycle_installs_assignment (r : Registry) (f : Follower) (n : Nat) (leader node : Station)
    (hdevice : node.device ≠ leader.device) (hrealm : node.realm = leader.realm) :
    (∀ chunk ∈ r.chunksFor n f, ∀ first, ∃ bytes,
      Message.encodeBind leader first chunk = .ok bytes) ∧
    (r.chunksFor n f).flatten = r.bindingsFor f ∧
    ∃ datagrams : List Bytes,
      List.Forall₂ (fun d bytes => d.message.encode leader = .ok [bytes])
        (Coordinator.deliveries ⟨f.address, r.chunksFor n f⟩) datagrams ∧
      (r.chunksFor n f ≠ [] → ∀ (b : Binder) (source : Address) (arrivals : List (Bytes × Instant)),
        arrivals.map (·.1) = datagrams →
        let t := (b.hear node leader.device source arrivals).table
        t.bindings = BindingTable.consolidate (r.bindingsFor f) ∧
        (∀ key, t.isSink key = true ↔
          ∃ e ∈ r.entries.values, (e.link.mode = .recv ∨ e.link.mode = .sync) ∧
            e.link.destKey = key ∧ ∀ tag ∈ e.link.query.tags, tag ∈ f.tags) ∧
        (∀ key, key ∈ t.sources.map (·.key) ↔
          ∃ e ∈ r.entries.values, (e.link.mode = .send ∨ e.link.mode = .sync) ∧
            e.link.sourceKey = key ∧ ∃ c ∈ e.contributors, c.address = f.address)) := by
  refine ⟨?_, r.flatten_chunksFor n f, ?_⟩
  · intro chunk hchunk first
    obtain ⟨bytes, hbytes, _⟩ :=
      Message.carries_encodeBind leader first (Registry.length_le_of_mem_chunksFor hchunk)
    exact ⟨bytes, hbytes⟩
  obtain ⟨datagrams, hwritten, hcarried⟩ := carries_deliveries leader r n f
  refine ⟨datagrams, hwritten, ?_⟩
  intro hchunks b source arrivals harrivals t
  have hread : List.Forall₂
      (fun m a => ∃ header, Message.decode node a.1 = .ok (header, .bind m.1 m.2))
      ((r.chunksFor n f).zipIdx.map fun p => (p.2 == 0, p.1)) arrivals := by
    rw [← harrivals, List.forall₂_map_right_iff] at hcarried
    refine hcarried.imp fun m a hcarries => ?_
    obtain ⟨header, hdecode, _⟩ := hcarries.accepted node hdevice hrealm
    exact ⟨header, hdecode⟩
  have hbindings : t.bindings = BindingTable.consolidate (r.bindingsFor f) := by
    rw [Binder.bindings_hear hread b, BindingTable.bindingsAfter_chunks _ hchunks,
      r.flatten_chunksFor n f]
  have hheld : ∀ key role, (∃ c ∈ t.bindings, c.role = role ∧ c.key = key) ↔
      ∃ c ∈ r.bindingsFor f, c.role = role ∧ c.key = key := by
    intro key role
    rw [hbindings, ← BindingTable.foldl_merge_eq, BindingTable.exists_mem_foldl_merge]
    simp
  refine ⟨hbindings, fun key => ?_, fun key => ?_⟩
  · rw [BindingTable.isSink_iff, hheld, Registry.exists_sink_iff]
  · have hsources : key ∈ t.sources.map (·.key) ↔
        ∃ c ∈ t.bindings, c.role = .source ∧ c.key = key := BindingTable.mem_sourceKeys
    rw [hsources, hheld, Registry.exists_source_iff]

/-- A follower keeps key 16 in step with others every 50 ms, and a second link writes the
same key every 200 ms. Cut into single bindings, this makes three datagrams and leaves two
bindings: the later rate holds for the sink. -/
theorem single_binding_chunks_installed :
    let address : Address := .v4 1
    let step : Link := { Link.new .sync 16 16 with rate := .clamp 50 }
    let write : Link := { Link.new .recv 7 16 with rate := .clamp 200 }
    let r : Registry :=
      ⟨{}, ((SortedMap.empty.insert 1 ⟨step, [⟨address, 60⟩]⟩).insert 2 ⟨write, [⟨.v4 9, 60⟩]⟩)⟩
    let f : Follower := .new address [] 0
    ∃ datagrams : List Bytes,
      List.Forall₂ (fun d bytes => d.message.encode ⟨1, 0⟩ = .ok [bytes])
        (Coordinator.deliveries ⟨address, r.chunksFor 1 f⟩) datagrams ∧
      datagrams.length = 3 ∧
      ∀ b : Binder, (b.hear ⟨2, 0⟩ 1 (.v4 9) (datagrams.map (·, 0))).table.bindings =
        [⟨16, 50, .source⟩, ⟨16, 200, .sink⟩] := by
  intro address step write r f
  obtain ⟨_, _, datagrams, hwritten, hinstalled⟩ :=
    cycle_installs_assignment r f 1 ⟨1, 0⟩ ⟨2, 0⟩ (by decide) rfl
  refine ⟨datagrams, hwritten, ?_, fun b => ?_⟩
  · rw [← hwritten.length_eq]
    decide
  · have harrivals : (datagrams.map fun d => (d, (0 : Instant))).map (·.1) = datagrams := by
      rw [List.map_map]
      exact List.map_id datagrams
    have hbindings := (hinstalled (by decide) b (.v4 9) _ harrivals).1
    refine hbindings.trans ?_
    decide

end LinkFabric
