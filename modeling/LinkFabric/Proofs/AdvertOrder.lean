import LinkFabric.Coordination.Assignment
import LinkFabric.Proofs.RegistryHistory
import Mathlib.Data.Finset.Card
import Mathlib.Data.List.Sort

/-!
# The order of advertisements does not matter

Nodes advertise their links at the same time, and what the leader hears first is a matter of
chance. An advertisement that is accepted renews the entry of its link: it makes the entry if
there is none, and gives the node all its cycles. What a number of accepted advertisements
leave behind depends only on which there were. They are all accepted if there is room for
all links and nodes together.

Main results:

* `Registry.lists_renewAll`, `Registry.link_renewAll`: the nodes and links after some renewals.
* `Registry.update_eq_ok_of_room`: when an advertisement is accepted.
* `Registry.Within.advertise_eq`: advertisements that stay within bounds are all accepted.
* `Registry.order_of_adverts_irrelevant`: in any order they leave the same links, nodes and
  bindings.
-/

namespace LinkFabric

/-! ## Maps with the same keys -/

namespace SortedMap

variable {κ α β : Type} [Ranked κ]

theorem keys_eq_of_isSome_eq {m m' : SortedMap κ α}
    (h : ∀ k, (m.find? k).isSome = (m'.find? k).isSome) : m.keys = m'.keys := by
  have hperm : m.keys.Perm m'.keys := by
    refine (List.perm_ext_iff_of_nodup m.nodup_keys m'.nodup_keys).mpr fun k => ?_
    rw [mem_keys_iff, mem_keys_iff, ← Option.isSome_iff_exists, ← Option.isSome_iff_exists, h]
  have hascending : ∀ m : SortedMap κ α,
      m.keys.Pairwise fun k k' => Ranked.rank k < Ranked.rank k' := fun m =>
    List.pairwise_map.mpr m.ascending
  refine hperm.eq_of_pairwise ?_ (hascending m) (hascending m')
  intro k k' _ _ hlt hgt
  exact absurd hlt (Nat.lt_asymm hgt)

/-- To go through the values is to go through the keys and look each of them up. -/
theorem flatMap_values (m : SortedMap κ α) (f : α → List β) :
    m.values.flatMap f = m.keys.flatMap fun k => ((m.find? k).map f).getD [] := by
  rw [values, keys, List.flatMap_map, List.flatMap_map]
  refine List.flatMap_congr fun p hp => ?_
  rw [(mem_entries_iff m).mp hp]
  rfl

end SortedMap

namespace Registry

/-! ## Renewals -/

/-- The registry after an accepted advertisement. -/
def renew (r : Registry) (link : Link) (address : Address) : Registry :=
  { r with entries := r.entries.insert link.id (.renewed (r.find? link.id) link address) }

/-- The registry after accepted advertisements, in their order. -/
def renewAll (r : Registry) (batch : List (Link × Address)) : Registry :=
  batch.foldl (fun r u => r.renew u.1 u.2) r

theorem lists_renew {r : Registry} {link : Link} {a b : Address} {id : LinkId} {t : Nat} :
    (r.renew link a).Lists id b t ↔
      (link.id, a) = (id, b) ∧ t = fullTtl ∨ (link.id, a) ≠ (id, b) ∧ r.Lists id b t :=
  lists_insert_renewed

theorem link_renewed (held : Option RegistryEntry) (link : Link) (address : Address) :
    (RegistryEntry.renewed held link address).link = (held.map (·.link)).getD link := by
  cases held with
  | none => rfl
  | some e =>
    rw [RegistryEntry.renewed]
    split_ifs <;> rfl

/-- An entry keeps its link, and a new one has the link that was advertised. -/
theorem link_renew (r : Registry) (link : Link) (address : Address) (id : LinkId) :
    ((r.renew link address).find? id).map (·.link) =
      ((r.find? id).map (·.link)).or (if link.id = id then some link else none) := by
  by_cases hid : link.id = id
  · subst hid
    rw [find?, renew, SortedMap.find?_insert_self, Option.map_some, link_renewed, if_pos rfl]
    cases r.find? link.id <;> rfl
  · rw [find?, renew, SortedMap.find?_insert_of_ne _ _ hid, if_neg hid, Option.or_none]
    rfl

/-- After renewals, the nodes that advertised have all their cycles, and the others are as
they were. -/
theorem lists_renewAll {r : Registry} {batch : List (Link × Address)} {id : LinkId}
    {b : Address} {t : Nat} :
    (r.renewAll batch).Lists id b t ↔
      (id, b) ∈ batch.map (fun u => (u.1.id, u.2)) ∧ t = fullTtl ∨
        (id, b) ∉ batch.map (fun u => (u.1.id, u.2)) ∧ r.Lists id b t := by
  induction batch generalizing r with
  | nil => simp [renewAll]
  | cons u batch ih =>
    rw [renewAll, List.foldl_cons, ← renewAll, ih, lists_renew, List.map_cons, List.mem_cons]
    by_cases hlater : (id, b) ∈ batch.map fun u => (u.1.id, u.2)
    · simp [hlater]
    · by_cases hnow : (u.1.id, u.2) = (id, b)
      · simp [hlater, hnow]
      · simp [hlater, hnow, Ne.symm hnow]

/-- After renewals, an entry has the link that it had, or else the first that was advertised
under its name. -/
theorem link_renewAll (r : Registry) (batch : List (Link × Address)) (id : LinkId) :
    ((r.renewAll batch).find? id).map (·.link) =
      ((r.find? id).map (·.link)).or ((batch.map (·.1)).find? fun link => link.id == id) := by
  induction batch generalizing r with
  | nil => exact (Option.or_none).symm
  | cons u batch ih =>
    rw [renewAll, List.foldl_cons, ← renewAll, ih, link_renew, Option.or_assoc, List.map_cons]
    by_cases hid : u.1.id = id
    · rw [if_pos hid, Option.some_or, List.find?_cons_of_pos (by simpa using hid)]
    · rw [if_neg hid, Option.none_or, List.find?_cons_of_neg (by simpa using hid)]

/-! ## Accepted advertisements -/

/-- The registry after advertisements, of which those that are refused change nothing. -/
def advertise (r : Registry) (batch : List (Link × Address)) : Registry :=
  batch.foldl (fun r u => r.tryUpdate u.1 u.2) r

theorem advertise_eq_run (r : Registry) (batch : List (Link × Address)) :
    r.advertise batch = r.run (batch.map fun u => .update u.1 u.2) := by
  rw [run, List.foldl_map]
  rfl

/-- The advertisements of links that obey the rule for keys. -/
def lawful (batch : List (Link × Address)) : List (Link × Address) :=
  batch.filter fun u => decide (u.1.checkKeys = .ok ())

theorem mem_lawful {batch : List (Link × Address)} {u : Link × Address} :
    u ∈ lawful batch ↔ u ∈ batch ∧ u.1.checkKeys = .ok () := by
  rw [lawful, List.mem_filter, decide_eq_true_eq]

/-- A link that obeys the rule for keys is accepted if there is room: for the link if it is
new, and for the node if it is new to the link. -/
theorem update_eq_ok_of_room {r : Registry} {link : Link} (address : Address)
    (hkeys : link.checkKeys = .ok ())
    (hlink : r.find? link.id = none → r.size < r.limits.maxLinks)
    (hnode : ∀ e, r.find? link.id = some e → e.hasContributor address = false →
      e.contributors.length < r.limits.maxContributors) :
    ∃ a, r.update link address = .ok (r.renew link address, a) := by
  have haccepted : ∃ p, r.update link address = .ok p := by
    simp only [update, hkeys]
    cases hfind : r.entries.find? link.id with
    | none =>
      have hroom : ¬ r.limits.maxLinks ≤ r.entries.size := Nat.not_le_of_lt (hlink hfind)
      simp only [if_neg hroom]
      exact ⟨_, rfl⟩
    | some e =>
      by_cases hlisted : e.hasContributor address = true
      · simp only [if_pos hlisted]
        exact ⟨_, rfl⟩
      · have hroom : ¬ r.limits.maxContributors ≤ e.contributors.length :=
          Nat.not_le_of_lt (hnode e hfind (Bool.eq_false_iff.mpr hlisted))
        simp only [if_neg hlisted, if_neg hroom]
        exact ⟨_, rfl⟩
  obtain ⟨⟨r', a⟩, hupdate⟩ := haccepted
  obtain ⟨-, rfl⟩ := update_eq_ok hupdate
  exact ⟨a, hupdate⟩

theorem tryUpdate_of_update {r r' : Registry} {link : Link} {address : Address} {a : Admission}
    (h : r.update link address = .ok (r', a)) : r.tryUpdate link address = r' := by
  rw [tryUpdate, h]

theorem tryUpdate_of_refused {r : Registry} {link : Link} (h : link.checkKeys ≠ .ok ())
    (address : Address) : r.tryUpdate link address = r := by
  rcases r.tryUpdate_eq link address with ⟨-, hsame⟩ | ⟨-, hkeys, -⟩
  · exact hsame
  · exact absurd hkeys h

/-! ## Bounds on links and nodes -/

/-- Different members of a set that leave one out are fewer than the set. -/
theorem length_lt_card {α : Type} [DecidableEq α] {l : List α} (hl : l.Nodup) {s : Finset α}
    (hsub : ∀ x ∈ l, x ∈ s) {y : α} (hy : y ∈ s) (hout : y ∉ l) : l.length < s.card := by
  rw [← List.toFinset_card_of_nodup hl]
  refine Finset.card_lt_card ((Finset.ssubset_iff_of_subset ?_).mpr ⟨y, hy, ?_⟩)
  · exact fun x hx => hsub x (List.mem_toFinset.mp hx)
  · rwa [List.mem_toFinset]

/-- A registry lists only some links, and for each of them only some nodes. -/
structure Within (ids : Finset LinkId) (nodes : LinkId → Finset Address) (r : Registry) :
    Prop where
  sound : r.Sound
  listed : ∀ id address ttl, r.Lists id address ttl → id ∈ ids ∧ address ∈ nodes id

section Bounds

variable {ids : Finset LinkId} {nodes : LinkId → Finset Address} {r : Registry}

theorem Within.mem_ids (h : Within ids nodes r) {id : LinkId} {e : RegistryEntry}
    (he : r.find? id = some e) : id ∈ ids := by
  obtain ⟨c, hc⟩ := List.exists_mem_of_ne_nil _ (h.sound id e he).inhabited
  exact (h.listed id c.address c.ttl ⟨e, he, hc⟩).1

theorem Within.size_lt (h : Within ids nodes r) {id : LinkId} (hid : id ∈ ids)
    (hnew : r.find? id = none) : r.size < ids.card := by
  have hsize : r.size = r.entries.keys.length := (List.length_map _).symm
  rw [hsize]
  refine length_lt_card r.entries.nodup_keys (fun id' hid' => ?_) hid fun hmem => ?_
  · obtain ⟨e, he⟩ := r.entries.mem_keys_iff.mp hid'
    exact h.mem_ids he
  · obtain ⟨e, he⟩ := r.entries.mem_keys_iff.mp hmem
    cases hnew.symm.trans he

theorem Within.length_lt (h : Within ids nodes r) {id : LinkId} {e : RegistryEntry}
    (he : r.find? id = some e) {address : Address} (haddress : address ∈ nodes id)
    (hnew : e.hasContributor address = false) : e.contributors.length < (nodes id).card := by
  rw [← List.length_map (·.address)]
  refine length_lt_card (h.sound id e he).distinct (fun address' hmem => ?_) haddress fun hmem => ?_
  · obtain ⟨c, hc, rfl⟩ := List.mem_map.mp hmem
    exact (h.listed id c.address c.ttl ⟨e, he, hc⟩).2
  · exact absurd (RegistryEntry.hasContributor_iff.mpr (List.mem_map.mp hmem))
      (Bool.eq_false_iff.mp hnew)

/-- A link and a node within the bounds are accepted, and leave the registry within them. -/
theorem Within.renew (h : Within ids nodes r) {link : Link} {address : Address}
    (hkeys : link.checkKeys = .ok ()) (hid : link.id ∈ ids) (haddress : address ∈ nodes link.id)
    (hlinks : ids.card ≤ r.limits.maxLinks)
    (hnodes : (nodes link.id).card ≤ r.limits.maxContributors) :
    r.tryUpdate link address = r.renew link address ∧ Within ids nodes (r.renew link address) := by
  obtain ⟨a, hupdate⟩ := update_eq_ok_of_room address hkeys
    (fun hnew => Nat.lt_of_lt_of_le (h.size_lt hid hnew) hlinks)
    (fun e he hnew => Nat.lt_of_lt_of_le (h.length_lt he haddress hnew) hnodes)
  have heq := tryUpdate_of_update hupdate
  refine ⟨heq, ?_, ?_⟩
  · have hsound := h.sound.perform (.update link address)
    rwa [perform, heq] at hsound
  · intro id b t hlist
    rcases lists_renew.mp hlist with ⟨hsame, -⟩ | ⟨-, hlist⟩
    · obtain ⟨rfl, rfl⟩ := Prod.mk.inj hsame
      exact ⟨hid, haddress⟩
    · exact h.listed id b t hlist

/-- Of advertisements within the bounds, those that obey the rule for keys are all accepted. -/
theorem Within.advertise_eq (h : Within ids nodes r) {batch : List (Link × Address)}
    (hbatch : ∀ u ∈ batch, u.1.id ∈ ids ∧ u.2 ∈ nodes u.1.id)
    (hlinks : ids.card ≤ r.limits.maxLinks)
    (hnodes : ∀ u ∈ batch, (nodes u.1.id).card ≤ r.limits.maxContributors) :
    r.advertise batch = r.renewAll (lawful batch) := by
  induction batch generalizing r with
  | nil => rfl
  | cons u batch ih =>
    have hrest : ∀ v ∈ batch, v.1.id ∈ ids ∧ v.2 ∈ nodes v.1.id :=
      fun v hv => hbatch v (List.mem_cons_of_mem _ hv)
    have hroom : ∀ v ∈ batch, (nodes v.1.id).card ≤ r.limits.maxContributors :=
      fun v hv => hnodes v (List.mem_cons_of_mem _ hv)
    rw [advertise, List.foldl_cons, ← advertise]
    by_cases hkeys : u.1.checkKeys = .ok ()
    · obtain ⟨hid, haddress⟩ := hbatch u List.mem_cons_self
      obtain ⟨heq, hwithin⟩ := h.renew hkeys hid haddress hlinks (hnodes u List.mem_cons_self)
      rw [heq, lawful, List.filter_cons_of_pos (by simpa using hkeys), renewAll, List.foldl_cons]
      exact ih hwithin hrest hlinks hroom
    · rw [tryUpdate_of_refused hkeys, lawful, List.filter_cons_of_neg (by simpa using hkeys)]
      exact ih h hrest hlinks hroom

end Bounds

/-! ## Orders of a batch -/

/-- The nodes that are listed for a link. -/
def nodesOf (r : Registry) (id : LinkId) : List Address :=
  ((r.find? id).map fun e => e.contributors.map (·.address)).getD []

/-- The nodes that advertise a link in a batch. -/
def advertisers (batch : List (Link × Address)) (id : LinkId) : List Address :=
  (batch.filter fun u => u.1.id == id).map (·.2)

/-- A registry can take in a batch of advertisements whole. No two different links of the batch
have the same name; all the names together, and all the nodes of each link that is advertised,
are no more than there may be. -/
structure Room (r : Registry) (batch : List (Link × Address)) : Prop where
  named : ∀ l ∈ batch.map (·.1), ∀ l' ∈ batch.map (·.1), l.id = l'.id → l = l'
  links : (r.entries.keys ++ batch.map (·.1.id)).toFinset.card ≤ r.limits.maxLinks
  nodes : ∀ u ∈ batch, (r.nodesOf u.1.id ++ advertisers batch u.1.id).toFinset.card ≤
    r.limits.maxContributors

theorem mem_nodesOf_of_lists {r : Registry} {id : LinkId} {address : Address} {ttl : Nat}
    (h : r.Lists id address ttl) : address ∈ r.nodesOf id := by
  obtain ⟨e, he, hmem⟩ := h
  rw [nodesOf, he]
  exact List.mem_map_of_mem hmem

theorem Sound.within {r : Registry} (hr : r.Sound) (batch : List (Link × Address)) :
    Within (r.entries.keys ++ batch.map (·.1.id)).toFinset
      (fun id => (r.nodesOf id ++ advertisers batch id).toFinset) r where
  sound := hr
  listed := by
    intro id address ttl hlist
    have hnode := mem_nodesOf_of_lists hlist
    obtain ⟨e, he, -⟩ := hlist
    have hkey : id ∈ r.entries.keys := r.entries.mem_keys_iff.mpr ⟨e, he⟩
    simp [hkey, hnode]

/-- What a batch leaves behind, in any order: its links that obey the rule for keys are
renewed. -/
theorem Room.advertise_eq {r : Registry} {batch batch' : List (Link × Address)}
    (h : Room r batch) (hr : r.Sound) (hperm : batch.Perm batch') :
    r.advertise batch' = r.renewAll (lawful batch') := by
  refine (hr.within batch).advertise_eq (fun u hu => ?_) h.links fun u hu => ?_
  · have hu : u ∈ batch := hperm.mem_iff.mpr hu
    have hnode : u.2 ∈ advertisers batch u.1.id :=
      List.mem_map_of_mem (List.mem_filter.mpr ⟨hu, beq_self_eq_true _⟩)
    have hid : u.1.id ∈ batch.map (·.1.id) := List.mem_map_of_mem hu
    simp [hid, hnode]
  · exact h.nodes u (hperm.mem_iff.mpr hu)

/-! ## Registries that agree -/

/-- Two registries hold the same links, and list the same nodes with the same cycles. -/
structure Agree (r r' : Registry) : Prop where
  links : ∀ id, (r.find? id).map (·.link) = (r'.find? id).map (·.link)
  nodes : ∀ id address ttl, r.Lists id address ttl ↔ r'.Lists id address ttl

section Agreement

variable {r r' : Registry} {id : LinkId} {e e' : RegistryEntry}

theorem Agree.keys_eq (h : Agree r r') : r.entries.keys = r'.entries.keys := by
  refine SortedMap.keys_eq_of_isSome_eq fun id => ?_
  have hlink := congrArg Option.isSome (h.links id)
  rwa [Option.isSome_map, Option.isSome_map] at hlink

/-- Entries of one name list the same nodes, if in another order. -/
theorem Agree.perm_contributors (h : Agree r r') (hr : r.Sound) (hr' : r'.Sound)
    (he : r.find? id = some e) (he' : r'.find? id = some e') :
    e.contributors.Perm e'.contributors := by
  have hlists : ∀ {r : Registry} {e : RegistryEntry}, r.find? id = some e → ∀ c : Contributor,
      c ∈ e.contributors ↔ r.Lists id c.address c.ttl := by
    intro r e he c
    simp only [Lists, he, Option.some.injEq, exists_eq_left']
  refine (List.perm_ext_iff_of_nodup (hr id e he).distinct.of_map
    (hr' id e' he').distinct.of_map).mpr fun c => ?_
  rw [hlists he, hlists he', h.nodes]

theorem Agree.link_eq (h : Agree r r') (he : r.find? id = some e) (he' : r'.find? id = some e') :
    e.link = e'.link := by
  have hlink := h.links id
  rw [he, he'] at hlink
  exact Option.some.inj hlink

/-- An entry gives a follower bindings by its link and its nodes, whatever their order. -/
theorem bindingsFor_eq_of_perm (hlink : e.link = e'.link)
    (hperm : e.contributors.Perm e'.contributors) (f : Follower) :
    e.bindingsFor f = e'.bindingsFor f := by
  have hlisted : e.hasContributor f.address = e'.hasContributor f.address := hperm.any_eq
  simp only [RegistryEntry.bindingsFor, RegistryEntry.sourceFor, RegistryEntry.sinkFor, hlink,
    hlisted]

theorem Agree.bindingsFor_eq (h : Agree r r') (hr : r.Sound) (hr' : r'.Sound) (f : Follower) :
    r.bindingsFor f = r'.bindingsFor f := by
  rw [bindingsFor, bindingsFor, SortedMap.flatMap_values, SortedMap.flatMap_values, ← h.keys_eq]
  refine List.flatMap_congr fun id hid => ?_
  obtain ⟨e, he⟩ := r.entries.mem_keys_iff.mp hid
  obtain ⟨e', he'⟩ := r'.entries.mem_keys_iff.mp (h.keys_eq ▸ hid)
  rw [he, he', Option.map_some, Option.map_some,
    bindingsFor_eq_of_perm (h.link_eq he he') (h.perm_contributors hr hr' he he')]

end Agreement

/-! ## The main result -/

/-- Where at most one member of a list can be found, the order does not matter. -/
theorem find?_eq_of_perm {α : Type} {l l' : List α} {p : α → Bool} (hperm : l.Perm l')
    (hone : ∀ x ∈ l, ∀ y ∈ l, p x = true → p y = true → x = y) : l.find? p = l'.find? p := by
  cases hfind : l.find? p with
  | none =>
    rw [List.find?_eq_none] at hfind
    exact (List.find?_eq_none.mpr fun x hx => hfind x (hperm.mem_iff.mpr hx)).symm
  | some x =>
    have hx := List.mem_of_find?_eq_some hfind
    have hpx := List.find?_some hfind
    have hsome : (l'.find? p).isSome = true :=
      List.find?_isSome.mpr ⟨x, hperm.mem_iff.mp hx, hpx⟩
    obtain ⟨y, hy⟩ := Option.isSome_iff_exists.mp hsome
    rw [hy, hone x hx y (hperm.mem_iff.mpr (List.mem_of_find?_eq_some hy)) hpx
      (List.find?_some hy)]

/-- Renewals in another order leave a registry that agrees, if names tell links apart. -/
theorem agree_renewAll {r : Registry} {batch batch' : List (Link × Address)}
    (hperm : batch.Perm batch')
    (hnamed : ∀ l ∈ batch.map (·.1), ∀ l' ∈ batch.map (·.1), l.id = l'.id → l = l') :
    Agree (r.renewAll batch) (r.renewAll batch') where
  links := by
    intro id
    rw [link_renewAll, link_renewAll, find?_eq_of_perm (hperm.map _)]
    intro l hl l' hl' hid hid'
    exact hnamed l hl l' hl' ((eq_of_beq hid).trans (eq_of_beq hid').symm)
  nodes := by
    intro id address ttl
    rw [lists_renewAll, lists_renewAll, (hperm.map _).mem_iff]

/-- A registry that any run of calls can give, and a batch of advertisements that it has room
for: whatever their order, the advertisements that obey the rule for keys are all accepted,
and there are the same links in the end, with the same nodes and cycles; so each follower
is given the same bindings, cut in the same way. -/
theorem order_of_adverts_irrelevant (limits : RegistryLimits) (calls : List Call)
    (batch batch' : List (Link × Address)) (hperm : batch.Perm batch')
    (hroom : Room ((empty limits).run calls) batch) :
    let r := ((empty limits).run calls).advertise batch
    let r' := ((empty limits).run calls).advertise batch'
    (∀ u ∈ batch, u.1.checkKeys = .ok () → r.Lists u.1.id u.2 60) ∧
    r.entries.keys = r'.entries.keys ∧
    (∀ id e e', r.find? id = some e → r'.find? id = some e' →
      e.link = e'.link ∧ (e.contributors.map (·.address)).Nodup ∧
        e.contributors.Perm e'.contributors) ∧
    ∀ n f, r.chunksFor n f = r'.chunksFor n f := by
  intro r r'
  have hstart := sound_run limits calls
  have hsound : ∀ batch, (((empty limits).run calls).advertise batch).Sound := by
    intro batch
    rw [advertise_eq_run, run, run, ← List.foldl_append]
    exact sound_run limits _
  have hagree : Agree r r' := by
    show Agree (advertise _ batch) (advertise _ batch')
    rw [hroom.advertise_eq hstart (.refl _), hroom.advertise_eq hstart hperm]
    refine agree_renewAll (hperm.filter _) fun l hl l' hl' => ?_
    have hsub : (lawful batch).map (·.1) ⊆ batch.map (·.1) := (List.filter_sublist.map _).subset
    exact hroom.named l (hsub hl) l' (hsub hl')
  refine ⟨fun u hu hkeys => ?_, hagree.keys_eq, fun id e e' he he' => ?_, fun n f => ?_⟩
  · show (advertise _ batch).Lists _ _ _
    rw [hroom.advertise_eq hstart (.refl _), lists_renewAll]
    exact .inl ⟨List.mem_map.mpr ⟨u, mem_lawful.mpr ⟨hu, hkeys⟩, rfl⟩, rfl⟩
  · exact ⟨hagree.link_eq he he', (hsound batch id e he).distinct,
      hagree.perm_contributors (hsound batch) (hsound batch') he he'⟩
  · rw [chunksFor_eq, chunksFor_eq, hagree.bindingsFor_eq (hsound batch) (hsound batch')]

/-- A link that one node is listed for, and a batch in which another node joins it, two nodes
advertise a second link, and a third link breaks the rule for keys. Forwards and backwards
the nodes of the second link come in different orders, and bindings are the same. -/
theorem batch_forwards_and_backwards :
    let send := Link.new .send 1 2
    let recv := Link.new .recv 3 4
    let broken := Link.new .sync 5 6
    let r := (empty ⟨3, 2⟩).run [.update send (.v4 1), .expire]
    let batch := [(recv, .v4 1), (send, .v4 2), (recv, .v4 2), (broken, .v4 3)]
    Room r batch ∧
    (r.advertise batch).find? recv.id = some ⟨recv, [⟨.v4 1, 60⟩, ⟨.v4 2, 60⟩]⟩ ∧
    (r.advertise batch.reverse).find? recv.id = some ⟨recv, [⟨.v4 2, 60⟩, ⟨.v4 1, 60⟩]⟩ ∧
    ∀ n f, (r.advertise batch).chunksFor n f = (r.advertise batch.reverse).chunksFor n f := by
  intro send recv broken r batch
  have hroom : Room r batch :=
    ⟨by decide +kernel, by decide +kernel, by decide +kernel⟩
  obtain ⟨-, -, -, hchunks⟩ := order_of_adverts_irrelevant ⟨3, 2⟩ [.update send (.v4 1), .expire]
    batch batch.reverse (List.reverse_perm batch).symm hroom
  exact ⟨hroom, by decide +kernel, by decide +kernel, hchunks⟩

end Registry

end LinkFabric
