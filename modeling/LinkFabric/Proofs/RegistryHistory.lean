import LinkFabric.Coordination.Registry
import LinkFabric.Proofs.Lease
import Mathlib.Data.List.Nodup
import Mathlib.Tactic.SplitIfs

/-!
# The registry knows what it was told

A registry is told of links by many nodes, cycle after cycle, and some of what it is told
it turns away. What it holds in the end is a matter of each link and node by itself: the
node is listed as long as its last accepted advertisement is not too many cycles old.

Main results:

* `RegistryEntry.mem_renewed`, `RegistryEntry.mem_age`: what an advertisement and a cycle do
  to the nodes of an entry.
* `Registry.lists_run_iff`: the nodes listed after a run are those with a lease in its history.
* `Registry.sound_run`: entries are well formed after every run.
* `Registry.contents_follow_history`: the contents of a registry in terms of its history.
-/

namespace LinkFabric

/-- The keys that an update of a map drops are as many as the pairs that it loses. -/
theorem SortedMap.size_sub_size_filterMap {κ α β : Type} [Ranked κ] (m : SortedMap κ α)
    (f : κ → α → Option β) :
    m.size - (m.filterMap f).size =
      (m.keys.filter fun k => !(m.filterMap f).contains k).length := by
  have hkept : (m.filterMap f).size = m.entries.countP fun p => (f p.1 p.2).isSome := by
    simp [size, filterMap, List.length_filterMap_eq_countP]
  have hcontains : ∀ p ∈ m.entries, (m.filterMap f).contains p.1 = (f p.1 p.2).isSome := by
    intro p hp
    have hfind : m.find? p.1 = some p.2 := (mem_entries_iff m).mp hp
    rw [contains, find?_filterMap, hfind, Option.bind_some]
  have hgone : (m.keys.filter fun k => !(m.filterMap f).contains k).length =
      m.entries.countP fun p => !(f p.1 p.2).isSome := by
    rw [← List.countP_eq_length_filter, keys, List.countP_map]
    refine List.countP_congr fun p hp => ?_
    simp [hcontains p hp]
  have hall : m.size = (m.entries.countP fun p => (f p.1 p.2).isSome) +
      m.entries.countP fun p => !(f p.1 p.2).isSome := by
    rw [size, List.length_eq_countP_add_countP fun p : κ × α => (f p.1 p.2).isSome]
    congr 1
    exact List.countP_congr fun p _ => by simp
  omega

/-! ## Entries -/

namespace RegistryEntry

/-- An entry that is stored under a name is well formed: it is the name of its link, which obeys
the rule for keys, and there are nodes listed, none of them twice. -/
structure Sound (id : LinkId) (e : RegistryEntry) : Prop where
  named : e.link.id = id
  keyed : e.link.checkKeys = .ok ()
  distinct : (e.contributors.map (·.address)).Nodup
  inhabited : e.contributors ≠ []

/-- The entry after a node advertised its link. -/
def renewed (held : Option RegistryEntry) (link : Link) (address : Address) : RegistryEntry :=
  match held with
  | none => ⟨link, [⟨address, Registry.fullTtl⟩]⟩
  | some e =>
    if e.hasContributor address then e.refresh address Registry.fullTtl
    else e.join address Registry.fullTtl

theorem addresses_refresh (e : RegistryEntry) (address : Address) (ttl : Nat) :
    (e.refresh address ttl).contributors.map (·.address) = e.contributors.map (·.address) := by
  rw [refresh, List.map_map]
  refine List.map_congr_left fun c _ => ?_
  rw [Function.comp_apply]
  split_ifs <;> rfl

theorem mem_refresh {e : RegistryEntry} {a b : Address} {ttl t : Nat} :
    ⟨b, t⟩ ∈ (e.refresh a ttl).contributors ↔
      b = a ∧ t = ttl ∧ e.hasContributor a = true ∨ b ≠ a ∧ ⟨b, t⟩ ∈ e.contributors := by
  rw [hasContributor_iff, refresh, List.mem_map]
  constructor
  · rintro ⟨c, hc, heq⟩
    split_ifs at heq with haddress
    · cases heq
      exact .inl ⟨haddress, rfl, c, hc, haddress⟩
    · subst heq
      exact .inr ⟨haddress, hc⟩
  · rintro (⟨rfl, rfl, c, hc, rfl⟩ | ⟨hne, hmem⟩)
    · exact ⟨c, hc, if_pos rfl⟩
    · exact ⟨⟨b, t⟩, hmem, if_neg hne⟩

/-- The node that advertised has all its cycles, and the others are as they were. -/
theorem mem_renewed {held : Option RegistryEntry} {link : Link} {a b : Address} {t : Nat} :
    ⟨b, t⟩ ∈ (renewed held link a).contributors ↔
      b = a ∧ t = Registry.fullTtl ∨
        b ≠ a ∧ ∃ e, held = some e ∧ ⟨b, t⟩ ∈ e.contributors := by
  cases held with
  | none => simp [renewed]
  | some e =>
    simp only [renewed, Option.some.injEq, exists_eq_left']
    split_ifs with hlisted
    · simp [mem_refresh, hlisted]
    · have hnew : ⟨a, t⟩ ∉ e.contributors := fun hmem =>
        hlisted (hasContributor_iff.mpr ⟨_, hmem, rfl⟩)
      rw [join, List.mem_append, List.mem_singleton, Contributor.mk.injEq]
      by_cases hb : b = a
      · subst hb
        simp [hnew]
      · simp [hb]

theorem Sound.renewed {held : Option RegistryEntry} {link : Link} (address : Address)
    (hkeys : link.checkKeys = .ok ()) (hheld : ∀ e, held = some e → e.Sound link.id) :
    (RegistryEntry.renewed held link address).Sound link.id := by
  cases held with
  | none => exact ⟨rfl, hkeys, List.nodup_singleton _, List.cons_ne_nil _ _⟩
  | some e =>
    obtain ⟨hnamed, hkeyed, hdistinct, hinhabited⟩ := hheld e rfl
    simp only [RegistryEntry.renewed]
    split_ifs with hlisted
    · refine ⟨hnamed, hkeyed, ?_, ?_⟩
      · rw [addresses_refresh]
        exact hdistinct
      · simpa [refresh] using hinhabited
    · refine ⟨hnamed, hkeyed, ?_, by simp [join]⟩
      have hnew : address ∉ e.contributors.map (·.address) := fun hmem =>
        hlisted (hasContributor_iff.mpr (List.mem_map.mp hmem))
      rw [join, List.map_append, List.map_singleton]
      exact List.nodup_append'.mpr ⟨hdistinct, List.nodup_singleton _,
        List.disjoint_singleton.mpr hnew⟩

/-- The nodes that a cycle leaves in an entry. -/
def survivors (e : RegistryEntry) : List Contributor :=
  e.contributors.filterMap fun c => if c.ttl ≤ 1 then none else some { c with ttl := c.ttl - 1 }

theorem age_eq_some_iff {e e' : RegistryEntry} :
    e.age = some e' ↔ e.survivors ≠ [] ∧ e' = { e with contributors := e.survivors } := by
  have hage : e.age = if e.survivors.isEmpty then none
      else some { e with contributors := e.survivors } := rfl
  rw [hage]
  split_ifs with hempty
  · simp [List.isEmpty_iff.mp hempty]
  · rw [Option.some.injEq, eq_comm]
    exact ⟨fun h => ⟨fun hnil => hempty (List.isEmpty_iff.mpr hnil), h⟩, And.right⟩

/-- A cycle takes one cycle from every node and drops those that have none left. -/
theorem mem_survivors {e : RegistryEntry} {b : Address} {t : Nat} :
    ⟨b, t⟩ ∈ e.survivors ↔ ⟨b, t + 1⟩ ∈ e.contributors ∧ 0 < t := by
  rw [survivors, List.mem_filterMap]
  constructor
  · rintro ⟨c, hc, heq⟩
    split_ifs at heq with hlast
    obtain ⟨b', n⟩ := c
    obtain ⟨rfl, rfl⟩ := Contributor.mk.inj (Option.some.inj heq)
    simp only [Nat.not_le] at hlast
    rw [Nat.sub_add_cancel (Nat.le_of_lt hlast)]
    exact ⟨hc, Nat.sub_pos_of_lt hlast⟩
  · rintro ⟨hmem, hpos⟩
    exact ⟨_, hmem, by rw [if_neg (by simpa using Nat.ne_of_gt hpos)]; rfl⟩

theorem addresses_survivors_sublist (e : RegistryEntry) :
    (e.survivors.map (·.address)).Sublist (e.contributors.map (·.address)) := by
  have hkept : e.survivors.map (·.address) =
      (e.contributors.filter fun c => !decide (c.ttl ≤ 1)).map (·.address) := by
    rw [survivors, List.map_filterMap, ← List.filterMap_eq_map, ← List.filterMap_eq_filter,
      List.filterMap_filterMap]
    refine List.filterMap_congr fun c _ => ?_
    by_cases hlast : c.ttl ≤ 1 <;> simp [hlast, Option.guard]
  rw [hkept]
  exact List.filter_sublist.map _

theorem Sound.age {id : LinkId} {e e' : RegistryEntry} (h : e.Sound id)
    (hage : e.age = some e') : e'.Sound id := by
  obtain ⟨hinhabited, rfl⟩ := age_eq_some_iff.mp hage
  exact ⟨h.named, h.keyed, h.distinct.sublist e.addresses_survivors_sublist, hinhabited⟩

theorem mem_age {e : RegistryEntry} {b : Address} {t : Nat} :
    (∃ e', e.age = some e' ∧ ⟨b, t⟩ ∈ e'.contributors) ↔
      ⟨b, t + 1⟩ ∈ e.contributors ∧ 0 < t := by
  rw [← mem_survivors]
  constructor
  · rintro ⟨e', hage, hmem⟩
    obtain ⟨_, rfl⟩ := age_eq_some_iff.mp hage
    exact hmem
  · intro hmem
    exact ⟨_, age_eq_some_iff.mpr ⟨List.ne_nil_of_mem hmem, rfl⟩, hmem⟩

end RegistryEntry

/-! ## One call -/

namespace Registry

/-- A call of a registry. -/
inductive Call where
  | update (link : Link) (address : Address)
  | expire
  | clear

/-- The registry after a call. -/
def perform (r : Registry) : Call → Registry
  | .update link address => r.tryUpdate link address
  | .expire => r.expire.1
  | .clear => r.clear

/-- The registry after a run of calls. -/
def run (r : Registry) (calls : List Call) : Registry := calls.foldl perform r

/-- What a call means for the leases of links and nodes. -/
def event (r : Registry) : Call → Lease.Event (LinkId × Address)
  | .update link address =>
    match r.update link address with
    | .ok _ => .granted (link.id, address)
    | .error _ => .nothing
  | .expire => .cycle
  | .clear => .wiped

/-- What a run of calls means for the leases of links and nodes. -/
def history (r : Registry) : List Call → List (Lease.Event (LinkId × Address))
  | [] => []
  | call :: calls => r.event call :: (r.perform call).history calls

/-- A node is listed for a link with a number of cycles left. -/
def Lists (r : Registry) (id : LinkId) (address : Address) (ttl : Nat) : Prop :=
  ∃ e, r.find? id = some e ∧ ⟨address, ttl⟩ ∈ e.contributors

/-- All entries are well formed. -/
def Sound (r : Registry) : Prop := ∀ id e, r.find? id = some e → e.Sound id

/-- An accepted advertisement renews the entry of its link. -/
theorem update_eq_ok {r r' : Registry} {link : Link} {address : Address} {a : Admission}
    (h : r.update link address = .ok (r', a)) :
    link.checkKeys = .ok () ∧
      r' = { r with
        entries := r.entries.insert link.id (.renewed (r.find? link.id) link address) } := by
  simp only [update] at h
  cases hkeys : link.checkKeys with
  | error cause => simp [hkeys] at h
  | ok _ =>
    refine ⟨rfl, ?_⟩
    cases hfind : r.entries.find? link.id with
    | none =>
      simp only [hkeys, hfind] at h
      split_ifs at h
      cases h
      simp [find?, hfind, RegistryEntry.renewed]
    | some e =>
      simp only [hkeys, hfind] at h
      split_ifs at h with hlisted hfull
      · cases h
        simp [find?, hfind, RegistryEntry.renewed, hlisted]
      · cases h
        simp [find?, hfind, RegistryEntry.renewed, hlisted]

/-- A call either changes nothing, for it is refused, or it renews one entry. -/
theorem tryUpdate_eq (r : Registry) (link : Link) (address : Address) :
    r.event (.update link address) = .nothing ∧ r.tryUpdate link address = r ∨
      r.event (.update link address) = .granted (link.id, address) ∧
        link.checkKeys = .ok () ∧
        r.tryUpdate link address = { r with
          entries := r.entries.insert link.id (.renewed (r.find? link.id) link address) } := by
  simp only [event, tryUpdate]
  cases hupdate : r.update link address with
  | error cause => exact .inl ⟨rfl, rfl⟩
  | ok p =>
    obtain ⟨r', a⟩ := p
    obtain ⟨hkeys, hafter⟩ := update_eq_ok hupdate
    exact .inr ⟨rfl, hkeys, hafter⟩

theorem lists_insert_renewed {r : Registry} {link : Link} {a b : Address} {id : LinkId} {t : Nat} :
    Lists { r with entries := r.entries.insert link.id (.renewed (r.find? link.id) link a) } id b t ↔
      (link.id, a) = (id, b) ∧ t = fullTtl ∨ (link.id, a) ≠ (id, b) ∧ r.Lists id b t := by
  unfold Lists find?
  by_cases hid : link.id = id
  · subst hid
    simp only [SortedMap.find?_insert_self, Option.some.injEq, exists_eq_left',
      RegistryEntry.mem_renewed, Prod.mk.injEq, true_and, ne_eq, @eq_comm _ a b]
  · simp [SortedMap.find?_insert_of_ne _ _ hid, hid]

theorem lists_expire {r : Registry} {id : LinkId} {b : Address} {t : Nat} :
    r.expire.1.Lists id b t ↔ r.Lists id b (t + 1) ∧ 0 < t := by
  simp only [Lists, find?, expire, SortedMap.find?_filterMap, Option.bind_eq_some_iff]
  constructor
  · rintro ⟨e', ⟨e, he, hage⟩, hmem⟩
    obtain ⟨hmem, hpos⟩ := RegistryEntry.mem_age.mp ⟨e', hage, hmem⟩
    exact ⟨⟨e, he, hmem⟩, hpos⟩
  · rintro ⟨⟨e, he, hmem⟩, hpos⟩
    obtain ⟨e', hage, hmem⟩ := RegistryEntry.mem_age.mpr ⟨hmem, hpos⟩
    exact ⟨e', ⟨e, he, hage⟩, hmem⟩

theorem not_lists_clear {r : Registry} {id : LinkId} {b : Address} {t : Nat} :
    ¬ r.clear.Lists id b t := by
  rintro ⟨e, he, _⟩
  cases he

theorem Sound.perform {r : Registry} (h : r.Sound) (call : Call) : (r.perform call).Sound := by
  intro id e he
  cases call with
  | update link address =>
    rcases r.tryUpdate_eq link address with ⟨_, hsame⟩ | ⟨_, hkeys, hafter⟩
    · rw [Registry.perform, hsame] at he
      exact h id e he
    · rw [Registry.perform, hafter, find?, SortedMap.find?_insert] at he
      split_ifs at he with hrank
      · obtain rfl := Ranked.eq_of_rank_eq hrank
        obtain rfl := Option.some.inj he
        exact .renewed address hkeys fun e he => h _ e he
      · exact h id e he
  | expire =>
    simp only [Registry.perform, find?, expire, SortedMap.find?_filterMap,
      Option.bind_eq_some_iff] at he
    obtain ⟨held, hheld, hage⟩ := he
    exact (h id held hheld).age hage
  | clear => cases he

/-! ## Runs -/

theorem sound_empty (limits : RegistryLimits) : (empty limits).Sound := by
  intro id e he
  cases he

theorem sound_run (limits : RegistryLimits) (calls : List Call) :
    ((empty limits).run calls).Sound :=
  List.foldlRecOn (motive := Sound) calls perform (sound_empty limits) fun _ h call _ =>
    h.perform call

theorem history_append_singleton (r : Registry) (calls : List Call) (call : Call) :
    r.history (calls ++ [call]) = r.history calls ++ [(r.run calls).event call] := by
  induction calls generalizing r with
  | nil => rfl
  | cons first calls ih =>
    rw [List.cons_append, history, ih, history, List.cons_append]
    rfl

/-- A node is listed for a link as its lease in the history of the registry says. -/
theorem lists_run_iff (limits : RegistryLimits) (calls : List Call) {id : LinkId} {b : Address}
    {t : Nat} :
    ((empty limits).run calls).Lists id b t ↔
      Lease.Left fullTtl ((empty limits).history calls) (id, b) t := by
  induction calls using List.reverseRecOn generalizing t with
  | nil =>
    refine iff_of_false ?_ Lease.not_left_nil
    rintro ⟨e, he, _⟩
    cases he
  | append_singleton calls call ih =>
    have hrun : (empty limits).run (calls ++ [call]) =
        ((empty limits).run calls).perform call := by
      rw [run, List.foldl_append]
      rfl
    rw [hrun, history_append_singleton]
    generalize (empty limits).run calls = r at ih ⊢
    cases call with
    | update link a =>
      rcases r.tryUpdate_eq link a with ⟨hevent, hsame⟩ | ⟨hevent, _, hafter⟩
      · rw [perform, hevent, hsame, Lease.left_nothing, ih]
      · rw [perform, hevent, hafter, lists_insert_renewed]
        by_cases hholder : (link.id, a) = (id, b)
        · simp [hholder, Lease.left_granted_self (show 0 < fullTtl by decide)]
        · simp [hholder, Lease.left_granted_of_ne hholder, ih]
    | expire => rw [perform, event, lists_expire, Lease.left_cycle, ih]
    | clear => exact iff_of_false not_lists_clear Lease.left_wiped

/-- After any run of calls, a node is listed for a link iff its last accepted advertisement of
the link, with no clearing since, is less than 60 cycles old, and the cycles since then are
missing from its 60. The entries are the links with a node listed, each under the name of
its own link, which obeys the rule for keys, and in ascending order of names; no entry
lists a node twice. From here on, a refused call changes nothing, and the end of a cycle
reports as many links as it forgets. -/
theorem contents_follow_history (limits : RegistryLimits) (calls : List Call) :
    let r := (empty limits).run calls
    (∀ id address ttl,
      (∃ e, r.find? id = some e ∧ ⟨address, ttl⟩ ∈ e.contributors) ↔
        ∃ age, Lease.LastGranted ((empty limits).history calls) (id, address) age ∧
          age < 60 ∧ ttl = 60 - age) ∧
    (∀ id, r.contains id = true ↔
      ∃ address ttl e, r.find? id = some e ∧ ⟨address, ttl⟩ ∈ e.contributors) ∧
    (∀ id e, r.find? id = some e →
      (e.contributors.map (·.address)).Nodup ∧ e.link.id = id ∧ e.link.checkKeys = .ok ()) ∧
    r.entries.keys.Pairwise (· < ·) ∧
    (∀ link address cause, r.update link address = .error cause →
      r.perform (.update link address) = r) ∧
    r.expire.2 = (r.entries.keys.filter fun id => !r.expire.1.contains id).length := by
  intro r
  have hsound : r.Sound := sound_run limits calls
  refine ⟨fun id address ttl => lists_run_iff limits calls, ?_, ?_, ?_, ?_, ?_⟩
  · intro id
    rw [contains, SortedMap.contains, Option.isSome_iff_exists]
    constructor
    · rintro ⟨e, he⟩
      obtain ⟨c, hc⟩ := List.exists_mem_of_ne_nil _ (hsound id e he).inhabited
      exact ⟨c.address, c.ttl, e, he, hc⟩
    · rintro ⟨_, _, e, he, _⟩
      exact ⟨e, he⟩
  · intro id e he
    exact ⟨(hsound id e he).distinct, (hsound id e he).named, (hsound id e he).keyed⟩
  · exact List.pairwise_map.mpr r.entries.ascending
  · intro link address cause hrefused
    simp only [perform, tryUpdate, hrefused]
  · exact r.entries.size_sub_size_filterMap _

/-- Two nodes advertise a link, and after 59 cycles the first does so again. The next cycle
is the sixtieth for the second node, which is gone after it; the first has 59 cycles left
from an advertisement that is one cycle old. -/
theorem silent_node_gone_after_sixty_cycles :
    let link := Link.new .recv 16 32
    let calls := .update link (.v4 1) :: .update link (.v4 2) ::
      (List.replicate 59 .expire ++ [.update link (.v4 1), .expire])
    let history := (empty {}).history calls
    ((empty {}).run calls).find? link.id = some ⟨link, [⟨.v4 1, 59⟩]⟩ ∧
    Lease.LastGranted history (link.id, .v4 1) 1 ∧
    ∀ age < 60, ¬ Lease.LastGranted history (link.id, .v4 2) age := by
  intro link calls history
  have hentry : ((empty {}).run calls).find? link.id = some ⟨link, [⟨.v4 1, 59⟩]⟩ := by
    decide +kernel
  have hlisted := (contents_follow_history {} calls).1
  refine ⟨hentry, ?_, fun age hage hgrant => ?_⟩
  · obtain ⟨age, hgrant, _, hleft⟩ :=
      (hlisted link.id (.v4 1) 59).mp ⟨_, hentry, List.mem_singleton_self _⟩
    obtain rfl : age = 1 := by omega
    exact hgrant
  · obtain ⟨e, he, hmem⟩ := (hlisted link.id (.v4 2) (60 - age)).mpr ⟨age, hgrant, hage, rfl⟩
    obtain rfl := Option.some.inj (hentry.symm.trans he)
    simp at hmem

end Registry

end LinkFabric
