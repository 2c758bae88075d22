import LinkFabric.Proofs.AdvertOrder
import LinkFabric.Proofs.Leadership
import LinkFabric.Proofs.Quantities

/-!
# How much a registry holds

A registry refuses a link that would be one too many, and a node that would be one too many for
a link. The node that makes an entry is not counted: an entry has room for it even if no node at
all is allowed. So the registry keeps to its limits, with a limit of one node in place of none,
and to exactly these. Settings may allow no node, and nothing refuses them.

Main results:

* `Registry.update_eq_ok_iff`: which advertisements are accepted.
* `Registry.FitsIn.perform`, `Registry.fitsIn_run`: what a call and a run of calls keep.
* `Settings.exists_limits_iff`: which limits can be set.
* `Registry.limits_hold_iff_a_node_is_allowed`: when a registry keeps to its limits.
-/

namespace LinkFabric

/-! ## The size of a map -/

theorem SortedMap.size_insert_of_find?_eq_none {κ α : Type} [Ranked κ] {m : SortedMap κ α} {k : κ}
    (h : m.find? k = none) (v : α) : (m.insert k v).size = m.size + 1 := by
  have hlength : ∀ l : List (κ × α), findIn k l = none →
      (insertIn k v l).length = l.length + 1 := by
    intro l hfind
    induction l with
    | nil => rfl
    | cons q rest ih =>
      obtain ⟨k', v'⟩ := q
      rw [findIn] at hfind
      split at hfind
      · cases hfind
      · rename_i hne
        rw [insertIn, if_neg (Ne.symm hne)]
        split
        · rfl
        · rw [List.length_cons, ih hfind, List.length_cons]
  exact hlength m.entries h

theorem SortedMap.size_filterMap_le {κ α β : Type} [Ranked κ] (m : SortedMap κ α)
    (f : κ → α → Option β) : (m.filterMap f).size ≤ m.size :=
  List.length_filterMap_le _ _

/-! ## The nodes of an entry -/

namespace RegistryEntry

theorem length_survivors_le (e : RegistryEntry) : e.survivors.length ≤ e.contributors.length :=
  List.length_filterMap_le _ _

/-- An advertisement makes an entry of one node, or adds the node if it is new. -/
theorem length_renewed (held : Option RegistryEntry) (link : Link) (address : Address) :
    (renewed held link address).contributors.length =
      match held with
      | none => 1
      | some e => if e.hasContributor address then e.contributors.length
          else e.contributors.length + 1 := by
  cases held with
  | none => rfl
  | some e =>
    simp only [renewed]
    split_ifs
    · exact List.length_map _
    · exact List.length_append

end RegistryEntry

/-! ## Limits -/

/-- The limits with room for one node where there is none. -/
def RegistryLimits.admitting (limits : RegistryLimits) : RegistryLimits :=
  { limits with maxContributors := max 1 limits.maxContributors }

theorem RegistryLimits.admitting_eq_self {limits : RegistryLimits}
    (h : 0 < limits.maxContributors) : limits.admitting = limits := by
  rw [admitting, Nat.max_eq_right h]

namespace Registry

/-- A registry keeps to limits. -/
structure FitsIn (limits : RegistryLimits) (r : Registry) : Prop where
  links : r.size ≤ limits.maxLinks
  nodes : ∀ id e, r.find? id = some e → e.contributors.length ≤ limits.maxContributors

variable {r : Registry} {link : Link} {address : Address}

/-- There is room for a link if it is new, and for a node if it is new to the link. -/
structure HasRoom (r : Registry) (link : Link) (address : Address) : Prop where
  for_link : r.find? link.id = none → r.size < r.limits.maxLinks
  for_node : ∀ e, r.find? link.id = some e → e.hasContributor address = false →
    e.contributors.length < r.limits.maxContributors

/-- An advertisement is accepted iff its link obeys the rule for keys and there is room. -/
theorem update_eq_ok_iff :
    (∃ a, r.update link address = .ok (r.renew link address, a)) ↔
      link.checkKeys = .ok () ∧ r.HasRoom link address := by
  constructor
  · rintro ⟨a, hupdate⟩
    have hkeys : link.checkKeys = .ok () := (update_eq_ok hupdate).1
    refine ⟨hkeys, fun hnew => ?_, fun e hheld hnode => ?_⟩
    · rw [find?] at hnew
      simp only [update, hkeys, hnew] at hupdate
      split_ifs at hupdate with hfull
      exact Nat.lt_of_not_le hfull
    · rw [find?] at hheld
      simp only [update, hkeys, hheld, hnode, Bool.false_eq_true, if_false] at hupdate
      split_ifs at hupdate with hfull
      exact Nat.lt_of_not_le hfull
  · rintro ⟨hkeys, hroom⟩
    exact update_eq_ok_of_room address hkeys hroom.for_link hroom.for_node

theorem find?_renew_self :
    (r.renew link address).find? link.id = some (.renewed (r.find? link.id) link address) :=
  SortedMap.find?_insert_self _ _ _

theorem find?_renew_of_ne {id : LinkId} (h : link.id ≠ id) :
    (r.renew link address).find? id = r.find? id :=
  SortedMap.find?_insert_of_ne _ _ h

theorem size_renew_of_new (h : r.find? link.id = none) :
    (r.renew link address).size = r.size + 1 :=
  SortedMap.size_insert_of_find?_eq_none h _

theorem size_renew_of_held {e : RegistryEntry} (h : r.find? link.id = some e) :
    (r.renew link address).size = r.size :=
  SortedMap.size_insert_of_contains (Option.isSome_of_eq_some h) _

/-- A registry that keeps to its limits, one node allowed at least, does so after an accepted
advertisement iff there was room for it. -/
theorem FitsIn.renew_iff (h : FitsIn r.limits.admitting r) (hsound : r.Sound) :
    FitsIn r.limits.admitting (r.renew link address) ↔ r.HasRoom link address := by
  constructor
  · intro hafter
    refine ⟨fun hnew => ?_, fun e hheld hnode => ?_⟩
    · have hlinks := hafter.links
      rwa [size_renew_of_new hnew] at hlinks
    · -- The entry has a node already, so the limit in force is the one that is set.
      have hbound := hafter.nodes link.id _ find?_renew_self
      have hsome : 0 < e.contributors.length :=
        List.length_pos_iff.mpr (hsound link.id e hheld).inhabited
      simp only [hheld, RegistryEntry.length_renewed, hnode, Bool.false_eq_true, if_false,
        RegistryLimits.admitting] at hbound
      omega
  · intro hroom
    refine ⟨?_, fun id e he => ?_⟩
    · cases hheld : r.find? link.id with
      | none =>
        rw [size_renew_of_new hheld]
        exact hroom.for_link hheld
      | some held =>
        rw [size_renew_of_held hheld]
        exact h.links
    · by_cases hid : link.id = id
      · subst hid
        obtain rfl := Option.some.inj (find?_renew_self.symm.trans he)
        rw [RegistryEntry.length_renewed]
        cases hheld : r.find? link.id with
        | none => exact Nat.le_max_left _ _
        | some held =>
          cases hnode : held.hasContributor address with
          | true =>
            simp only [hnode, if_true]
            exact h.nodes link.id held hheld
          | false =>
            simp only [hnode, Bool.false_eq_true, if_false]
            exact Nat.le_trans (hroom.for_node held hheld hnode) (Nat.le_max_right _ _)
      · rw [find?_renew_of_ne hid] at he
        exact h.nodes id e he

/-! ## Calls and runs -/

theorem limits_perform (r : Registry) (call : Call) : (r.perform call).limits = r.limits := by
  cases call with
  | update link address => exact r.limits_tryUpdate link address
  | expire => rfl
  | clear => rfl

theorem fitsIn_empty (limits limits' : RegistryLimits) : FitsIn limits (empty limits') := by
  refine ⟨Nat.zero_le _, fun id e he => ?_⟩
  cases he

theorem FitsIn.perform (h : FitsIn r.limits.admitting r) (hsound : r.Sound) (call : Call) :
    FitsIn r.limits.admitting (r.perform call) := by
  cases call with
  | update link address =>
    rw [Registry.perform, tryUpdate]
    cases hupdate : r.update link address with
    | error cause => exact h
    | ok accepted =>
      obtain ⟨r', a⟩ := accepted
      obtain ⟨-, rfl⟩ := update_eq_ok hupdate
      exact (h.renew_iff hsound).mpr (update_eq_ok_iff.mp ⟨a, hupdate⟩).2
  | expire =>
    refine ⟨Nat.le_trans (r.entries.size_filterMap_le _) h.links, fun id e he => ?_⟩
    simp only [Registry.perform, find?, expire, SortedMap.find?_filterMap,
      Option.bind_eq_some_iff] at he
    obtain ⟨held, hheld, hage⟩ := he
    obtain ⟨-, rfl⟩ := RegistryEntry.age_eq_some_iff.mp hage
    exact Nat.le_trans held.length_survivors_le (h.nodes id held hheld)
  | clear => exact fitsIn_empty _ r.limits

/-- Over a run, a registry keeps its limits, its entries well formed and to its limits. -/
theorem fitsIn_run (limits : RegistryLimits) (calls : List Call) :
    let r := (empty limits).run calls
    r.limits = limits ∧ r.Sound ∧ FitsIn limits.admitting r := by
  refine List.foldlRecOn
    (motive := fun r : Registry => r.limits = limits ∧ r.Sound ∧ FitsIn limits.admitting r)
    calls Registry.perform ⟨rfl, sound_empty limits, fitsIn_empty _ limits⟩ ?_
  rintro r ⟨rfl, hsound, hfits⟩ call _
  exact ⟨r.limits_perform call, hsound.perform call, hfits.perform hsound call⟩

/-- A registry that may hold no link holds no node. -/
theorem FitsIn.of_no_links {limits limits' : RegistryLimits} (h : FitsIn limits r)
    (hnone : limits.maxLinks = 0) : FitsIn limits' r := by
  have hempty : r.entries.entries = [] :=
    List.length_eq_zero_iff.mp (Nat.le_zero.mp (hnone ▸ h.links))
  refine ⟨?_, fun id e he => ?_⟩
  · rw [size, SortedMap.size, hempty]
    exact Nat.zero_le _
  · rw [find?, SortedMap.find?, hempty] at he
    cases he

end Registry

/-! ## Limits that can be set -/

/-- Every pair of limits of machine size can be set. -/
theorem Settings.exists_limits_iff (limits : RegistryLimits) :
    (∃ fallback vars s, ofVariables fallback vars = .ok s ∧ s.limits = limits) ↔
      limits.maxLinks < UInt64.size ∧ limits.maxContributors < UInt64.size := by
  constructor
  · rintro ⟨fallback, vars, s, hs, rfl⟩
    exact ⟨(Quantity.says_of_ofVariables .maxLinks hs).2.1,
      (Quantity.says_of_ofVariables .maxContributors hs).2.1⟩
  · rintro ⟨hlinks, hnodes⟩
    obtain ⟨linksText, hlinksText⟩ := exists_denotes limits.maxLinks
    obtain ⟨nodesText, hnodesText⟩ := exists_denotes limits.maxContributors
    have hunset : ofVariables 0 (fun _ => none) = .ok (default 0) := rfl
    have hset := Quantity.ofVariables_update .maxContributors
      (Quantity.ofVariables_update .maxLinks hunset hlinksText hlinks) hnodesText hnodes
    exact ⟨_, _, _, hset, rfl⟩

namespace Registry

/-- A registry keeps to its limits, with one node for each link where none is allowed, over
every run of calls; and it accepts each link that obeys the rule for keys with which it still
does. So it keeps to the limits that are set if they allow a node, or no link, and only then.
All limits of machine size can be set, also those that do not. -/
theorem limits_hold_iff_a_node_is_allowed (limits : RegistryLimits) :
    (∀ calls, FitsIn limits.admitting ((empty limits).run calls)) ∧
    (∀ calls link address,
      let r := (empty limits).run calls
      (∃ a, r.update link address = .ok (r.renew link address, a)) ↔
        link.checkKeys = .ok () ∧ FitsIn limits.admitting (r.renew link address)) ∧
    ((∀ calls, FitsIn limits ((empty limits).run calls)) ↔
      0 < limits.maxContributors ∨ limits.maxLinks = 0) ∧
    ((∃ fallback vars s, Settings.ofVariables fallback vars = .ok s ∧ s.limits = limits) ↔
      limits.maxLinks < UInt64.size ∧ limits.maxContributors < UInt64.size) := by
  have hfits : ∀ calls, FitsIn limits.admitting ((empty limits).run calls) := fun calls =>
    (fitsIn_run limits calls).2.2
  refine ⟨hfits, fun calls link address => ?_, ⟨?_, ?_⟩, Settings.exists_limits_iff limits⟩
  · obtain ⟨hlimits, hsound, hfits⟩ := fitsIn_run limits calls
    intro r
    rw [update_eq_ok_iff, ← FitsIn.renew_iff (hlimits.symm ▸ hfits) hsound, hlimits]
  · intro hkept
    refine Decidable.or_iff_not_imp_right.mpr fun hlinks => ?_
    have hlink : (Link.new .recv 16 32).checkKeys = .ok () := rfl
    have hentry := find?_tryUpdate_empty (Nat.pos_of_ne_zero hlinks) hlink (.v4 1)
    exact (hkept [.update (.new .recv 16 32) (.v4 1)]).nodes _ _ hentry
  · rintro (hnode | hnone) calls
    · have hkept := hfits calls
      rwa [RegistryLimits.admitting_eq_self hnode] at hkept
    · exact (hfits calls).of_no_links hnone

/-- Settings that allow no node are accepted, and a registry under them takes in a link with a
node. -/
theorem node_listed_where_none_is_allowed :
    let link := Link.new .recv 1 2
    let vars := Function.update (fun _ => none) "HIVELINK_MAX_NODES_PER_LINK" (some "0")
    ∃ s, Settings.ofVariables 5 vars = .ok s ∧ s.limits = ⟨1024, 0⟩ ∧
      ((empty s.limits).run [.update link (.v4 1)]).find? link.id = some ⟨link, [⟨.v4 1, 60⟩]⟩ ∧
      ¬ FitsIn s.limits ((empty s.limits).run [.update link (.v4 1)]) := by
  intro link vars
  have hentry : ((empty ⟨1024, 0⟩).run [.update link (.v4 1)]).find? link.id =
      some ⟨link, [⟨.v4 1, 60⟩]⟩ := by decide +kernel
  refine ⟨{ Settings.default 5 with limits := ⟨1024, 0⟩ }, rfl, rfl, hentry, fun hfits => ?_⟩
  exact absurd (hfits.nodes _ _ hentry) (by decide)

end Registry

end LinkFabric
