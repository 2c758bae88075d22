import LinkFabric.Proofs.AdvertOrder
import LinkFabric.Proofs.Handover
import Mathlib.Data.List.Perm.Basic

/-!
# What a node declares is what the leader registers

A node checks a link when it declares it and keeps each name once; the leader checks the
links that it hears of by its own rules. What passes the first check passes the second: the
links of a node are all registered, in whatever order their datagrams arrive, as long as the
registry has room for them.

Main results:

* `Declarations.declare_cases`: a link is refused, or is there, or is checked and new.
* `Declarations.sound_run`: declared links obey the rule for keys and have different names.
* `Registry.updateAll_eq_ok`: a registry with room takes in such links one after another.
* `declared_links_registered`: the way from the declarations of a node to the registry.
-/

namespace LinkFabric

/-! ## Declarations -/

theorem Link.checkKeys_of_check {l : Link} {endpoint : Shape} (h : l.check endpoint = .ok ()) :
    l.checkKeys = .ok () := by
  cases hkeys : l.checkKeys with
  | ok _ => rfl
  | error cause => simp [check, hkeys, bind, Except.bind] at h

namespace Declarations

/-- A call of the declarations of a node. The values of the node may be others at each call. -/
inductive Call where
  | declare (store : KeyStore) (link : Link)
  | withdraw (id : LinkId)
  | markAdvertised (now : Instant)

/-- The declarations after a call. -/
def perform (d : Declarations) : Call → Declarations
  | .declare store link => d.tryDeclare store link
  | .withdraw id => (d.withdraw id).1
  | .markAdvertised now => d.markAdvertised now

/-- The declarations after a run of calls. -/
def run (d : Declarations) (calls : List Call) : Declarations := calls.foldl perform d

/-- Declarations are well formed: every link is kept under its name and obeys the rule for keys,
and no name is kept twice. -/
structure Sound (d : Declarations) : Prop where
  named : ∀ item ∈ d.items, item.id = item.link.id
  keyed : ∀ item ∈ d.items, item.link.checkKeys = .ok ()
  distinct : (d.items.map (·.id)).Nodup

theorem find?_isSome_iff {d : Declarations} {id : LinkId} :
    (d.find? id).isSome = true ↔ id ∈ d.items.map (·.id) := by
  simp [find?, List.find?_isSome]

/-- A link is refused, or its name is declared already, or it passes the check, has a new name
and comes last. -/
theorem declare_cases (d : Declarations) (store : KeyStore) (link : Link) :
    (∃ cause, d.declare store link = .error cause) ∨
      link.id ∈ d.items.map (·.id) ∧ d.declare store link = .ok (d, link.id) ∨
        link.checkKeys = .ok () ∧ link.id ∉ d.items.map (·.id) ∧
          d.declare store link = .ok (⟨d.items ++ [⟨link.id, link, 0, none⟩]⟩, link.id) := by
  unfold declare
  cases store.shapeOf link.localKey with
  | error cause => exact .inl ⟨cause, rfl⟩
  | ok endpoint =>
    cases hcheck : link.check endpoint with
    | error cause => exact .inl ⟨cause, by simp [bind, Except.bind, hcheck]⟩
    | ok _ =>
      have hkeys : link.checkKeys = .ok () := Link.checkKeys_of_check hcheck
      rw [← find?_isSome_iff]
      cases hfind : d.find? link.id with
      | some item => simp [bind, Except.bind, pure, Except.pure, hcheck, hfind]
      | none => simp [bind, Except.bind, pure, Except.pure, hcheck, hfind, hkeys]

theorem perform_of_error {d : Declarations} {store : KeyStore} {link : Link} {cause : LinkError}
    (h : d.declare store link = .error cause) : d.perform (.declare store link) = d := by
  simp only [perform, tryDeclare, h]

theorem perform_of_ok {d d' : Declarations} {store : KeyStore} {link : Link} {id : LinkId}
    (h : d.declare store link = .ok (d', id)) : d.perform (.declare store link) = d' := by
  simp only [perform, tryDeclare, h]

theorem sound_empty : empty.Sound :=
  ⟨fun _ h => absurd h List.not_mem_nil, fun _ h => absurd h List.not_mem_nil, List.nodup_nil⟩

theorem Sound.perform {d : Declarations} (h : d.Sound) (call : Call) : (d.perform call).Sound := by
  cases call with
  | declare store link =>
    rcases d.declare_cases store link with
      ⟨cause, hdeclare⟩ | ⟨-, hdeclare⟩ | ⟨hkeys, hnew, hdeclare⟩
    · rw [perform_of_error hdeclare]
      exact h
    · rw [perform_of_ok hdeclare]
      exact h
    · rw [perform_of_ok hdeclare]
      refine ⟨fun item hitem => ?_, fun item hitem => ?_, ?_⟩
      · rcases List.mem_append.mp hitem with hitem | hitem
        · exact h.named item hitem
        · rw [List.mem_singleton.mp hitem]
      · rcases List.mem_append.mp hitem with hitem | hitem
        · exact h.keyed item hitem
        · rw [List.mem_singleton.mp hitem]
          exact hkeys
      · rw [List.map_append, List.map_singleton]
        exact List.nodup_append'.mpr ⟨h.distinct, List.nodup_singleton _,
          List.disjoint_singleton.mpr hnew⟩
  | withdraw id =>
    refine ⟨fun item hitem => h.named item (List.mem_filter.mp hitem).1,
      fun item hitem => h.keyed item (List.mem_filter.mp hitem).1, ?_⟩
    exact h.distinct.sublist (List.filter_sublist.map _)
  | markAdvertised now =>
    refine ⟨fun item hitem => ?_, fun item hitem => ?_, ?_⟩
    · obtain ⟨held, hheld, rfl⟩ := List.mem_map.mp hitem
      exact h.named held hheld
    · obtain ⟨held, hheld, rfl⟩ := List.mem_map.mp hitem
      exact h.keyed held hheld
    · rw [Declarations.perform, markAdvertised, List.map_map]
      exact h.distinct

theorem sound_run (calls : List Call) : (empty.run calls).Sound :=
  List.foldlRecOn (motive := Sound) calls perform sound_empty fun _ h call _ => h.perform call

theorem Sound.nodup_links {d : Declarations} (h : d.Sound) : (d.links.map (·.id)).Nodup := by
  have hids : d.links.map (·.id) = d.items.map (·.id) := by
    rw [links, List.map_map]
    exact List.map_congr_left fun item hitem => (h.named item hitem).symm
  rw [hids]
  exact h.distinct

theorem Sound.checkKeys_links {d : Declarations} (h : d.Sound) {link : Link}
    (hlink : link ∈ d.links) : link.checkKeys = .ok () := by
  obtain ⟨item, hitem, rfl⟩ := List.mem_map.mp hlink
  exact h.keyed item hitem

end Declarations

/-! ## Links of one node at the leader -/

namespace Registry

/-- Takes in the links that a node advertised, up to the first that is refused. -/
def updateAll (r : Registry) (links : List Link) (address : Address) :
    Except AdmissionError Registry :=
  links.foldlM (fun r link => (r.update link address).map (·.1)) r

theorem updateAll_cons {r r' : Registry} {link : Link} {address : Address} {a : Admission}
    (h : r.update link address = .ok (r', a)) (links : List Link) :
    r.updateAll (link :: links) address = r'.updateAll links address := by
  rw [updateAll, List.foldlM_cons, h]
  rfl

/-- A registry takes in links of different names if it has room for so many more, and room
for the node where it has the link already. -/
theorem updateAll_eq_ok {r : Registry} {links : List Link} {address : Address}
    (hkeys : ∀ link ∈ links, link.checkKeys = .ok ()) (hnames : (links.map (·.id)).Nodup)
    (hlinks : r.size + links.length ≤ r.limits.maxLinks)
    (hnodes : ∀ link ∈ links, ∀ e, r.find? link.id = some e → e.hasContributor address = false →
      e.contributors.length < r.limits.maxContributors) :
    r.updateAll links address = .ok (r.renewAll (links.map (·, address))) := by
  induction links generalizing r with
  | nil => rfl
  | cons link links ih =>
    rw [List.length_cons] at hlinks
    rw [List.map_cons, List.nodup_cons] at hnames
    obtain ⟨a, hupdate⟩ := update_eq_ok_of_room address (hkeys link List.mem_cons_self)
      (fun _ => by omega) (hnodes link List.mem_cons_self)
    rw [updateAll_cons hupdate, List.map_cons, renewAll, List.foldl_cons, ← renewAll]
    refine ih (fun l hl => hkeys l (List.mem_cons_of_mem _ hl)) hnames.2 ?_ fun l hl e he => ?_
    · have hsize : (r.renew link address).size ≤ r.size + 1 := r.entries.size_insert_le _ _
      show (r.renew link address).size + links.length ≤ r.limits.maxLinks
      omega
    · -- The link that was taken in has another name, so the entry is as it was.
      have hne : link.id ≠ l.id := fun heq => hnames.1 (List.mem_map.mpr ⟨l, hl, heq.symm⟩)
      rw [find?, renew, SortedMap.find?_insert_of_ne _ _ hne] at he
      exact hnodes l (List.mem_cons_of_mem _ hl) e he

/-- After the links of a node are renewed, it has all its cycles for each of them. -/
theorem lists_renewAll_node {r : Registry} {links : List Link} {a b : Address} {id : LinkId}
    {t : Nat} :
    (r.renewAll (links.map (·, a))).Lists id b t ↔
      (b = a ∧ id ∈ links.map (·.id)) ∧ t = fullTtl ∨
        ¬ (b = a ∧ id ∈ links.map (·.id)) ∧ r.Lists id b t := by
  have hmem : (id, b) ∈ (links.map (·, a)).map (fun u => (u.1.id, u.2)) ↔
      b = a ∧ id ∈ links.map (·.id) := by
    simp only [List.map_map, List.mem_map, Function.comp_apply, Prod.mk.injEq]
    constructor
    · rintro ⟨link, hlink, rfl, rfl⟩
      exact ⟨rfl, link, hlink, rfl⟩
    · rintro ⟨rfl, link, hlink, rfl⟩
      exact ⟨link, hlink, rfl, rfl⟩
  rw [lists_renewAll, hmem]

/-- Where a name occurs once, looking it up finds the one that has it. -/
theorem find?_eq_of_nodup {α β : Type} [DecidableEq β] {name : α → β} {l : List α}
    (h : (l.map name).Nodup) {x : α} (hx : x ∈ l) :
    l.find? (fun y => name y == name x) = some x := by
  cases hfind : l.find? fun y => name y == name x with
  | none =>
    have hnone := List.find?_eq_none.mp hfind x hx
    simp at hnone
  | some y =>
    have hname : name y = name x := by simpa using List.find?_some hfind
    rw [List.inj_on_of_nodup_map h (List.mem_of_find?_eq_some hfind) hx hname]

/-- A link that is new to the registry is entered as it was advertised, if no other link of
the node has its name. -/
theorem exists_find?_renewAll {r : Registry} {links : List Link}
    (hnames : (links.map (·.id)).Nodup) {link : Link} (hlink : link ∈ links)
    (address : Address) :
    ∃ e, (r.renewAll (links.map (·, address))).find? link.id = some e ∧
      (r.find? link.id = none → e.link = link) := by
  have hfirst : links.find? (fun l => l.id == link.id) = some link :=
    find?_eq_of_nodup hnames hlink
  have hheld := link_renewAll r (links.map (·, address)) link.id
  rw [List.map_map, show (Prod.fst ∘ fun l => (l, address)) = id from rfl, List.map_id,
    hfirst] at hheld
  cases hfind : r.find? link.id with
  | none =>
    rw [hfind, Option.map_none, Option.none_or, Option.map_eq_some_iff] at hheld
    obtain ⟨e, he, heq⟩ := hheld
    exact ⟨e, he, fun _ => heq⟩
  | some held =>
    rw [hfind, Option.map_some, Option.some_or, Option.map_eq_some_iff] at hheld
    obtain ⟨e, he, -⟩ := hheld
    exact ⟨e, he, fun hnone => by cases hnone⟩

theorem foldl_tryUpdate_of_updateAll {r r' : Registry} {links : List Link} {address : Address}
    (h : r.updateAll links address = .ok r') :
    links.foldl (fun r link => r.tryUpdate link address) r = r' := by
  induction links generalizing r with
  | nil => exact Except.ok.inj h
  | cons link links ih =>
    cases hupdate : r.update link address with
    | error cause =>
      rw [updateAll, List.foldlM_cons, hupdate] at h
      cases h
    | ok p =>
      rw [List.foldl_cons, tryUpdate_of_update hupdate]
      rw [updateAll_cons hupdate] at h
      exact ih h

end Registry

/-- A leader takes in adverts one after another by taking in their links. -/
theorem Node.foldl_handOver_advert {n : Node} (h : n.settings.coordinates = true)
    (source : Address) (now : Instant) (parts : List (List Link)) :
    (parts.map Message.advert).foldl (fun n part => n.handOver source now part) n =
      { n with coordinator := { n.coordinator with
        registry := parts.flatten.foldl (fun r link => r.tryUpdate link source)
          n.coordinator.registry } } := by
  rw [List.foldl_map, List.foldl_flatten]
  refine List.foldl_hom (fun r => { n with coordinator := { n.coordinator with registry := r } })
    (fun r part => ?_)
  exact if_pos h

/-! ## From the declarations to the registry -/

/-- The datagrams that advertise links, in any order, carry the links in some order. -/
theorem Message.carries_advert_of_perm {sender : Station} {links : List Link}
    {arrivals : List Bytes} (h : arrivals.Perm (encodeAdvert sender links)) :
    ∃ parts : List (List Link), parts.flatten.Perm links ∧
      List.Forall₂ (fun bytes part => Carries sender bytes (.advert part)) arrivals parts := by
  obtain ⟨parts, hcarries, hperm⟩ := List.perm_comp_forall₂ h (carries_encodeAdvert sender links)
  refine ⟨parts, ?_, hcarries⟩
  have hflatten := hperm.flatten
  rwa [Packing.chunks, Packing.flatten_pack] at hflatten

/-- The links of a node, after any run of declarations, withdrawals and adverts, arrive at a
leader of the universe in datagrams in any order. If the registry has room for so many more
links, and for the node where it has a link already, every datagram is read and every link
in it accepted; a leading node whose part that coordinates runs takes in just that. Then
each declared link is there, under its name, with the node listed for all its cycles, and
whatever else was listed is as it was. -/
theorem declared_links_registered (calls : List Declarations.Call) (sender leader : Station)
    (hdevice : leader.device ≠ sender.device) (hrealm : leader.realm = sender.realm)
    (source : Address) (r : Registry)
    (hlinks : r.size + (Declarations.empty.run calls).size ≤ r.limits.maxLinks)
    (hnodes : ∀ link ∈ (Declarations.empty.run calls).links, ∀ e,
      r.find? link.id = some e → e.hasContributor source = false →
        e.contributors.length < r.limits.maxContributors)
    (arrivals : List Bytes)
    (harrivals : arrivals.Perm
      (Message.encodeAdvert sender (Declarations.empty.run calls).links)) :
    let links := (Declarations.empty.run calls).links
    ∃ parts : List (List Link),
      List.Forall₂
        (fun bytes part => ∃ header, Message.decode leader bytes = .ok (header, .advert part))
        arrivals parts ∧
      ∃ r', r.updateAll parts.flatten source = .ok r' ∧
        (∀ n : Node, n.settings.station = leader → n.role = .leader →
          n.settings.coordinates = true → n.coordinator.registry = r → ∀ now,
          n.receiveAll now .manager source arrivals =
            { n with coordinator := { n.coordinator with registry := r' } }) ∧
        (∀ link ∈ links,
          (∃ e, r'.find? link.id = some e ∧ (r.find? link.id = none → e.link = link)) ∧
          ∀ ttl, r'.Lists link.id source ttl ↔ ttl = 60) ∧
        ∀ id address ttl, (address = source → id ∉ links.map (·.id)) →
          (r'.Lists id address ttl ↔ r.Lists id address ttl) := by
  intro links
  have hsound := Declarations.sound_run calls
  obtain ⟨parts, hperm, hcarries⟩ := Message.carries_advert_of_perm harrivals
  have hnames : (parts.flatten.map (·.id)).Nodup :=
    (hperm.map _).nodup_iff.mpr hsound.nodup_links
  have haccepted : r.updateAll parts.flatten source =
      .ok (r.renewAll (parts.flatten.map (·, source))) := by
    refine Registry.updateAll_eq_ok (fun link hlink => ?_) hnames ?_ fun link hlink => ?_
    · exact hsound.checkKeys_links (hperm.mem_iff.mp hlink)
    · rw [hperm.length_eq, Declarations.links, List.length_map]
      exact hlinks
    · exact hnodes link (hperm.mem_iff.mp hlink)
  have hids : ∀ id, id ∈ parts.flatten.map (·.id) ↔ id ∈ links.map (·.id) := fun id =>
    (hperm.map _).mem_iff
  refine ⟨parts, hcarries.imp fun bytes part h => ?_, _, haccepted, ?_, ?_, ?_⟩
  · obtain ⟨header, hdecode, -⟩ := h.accepted leader hdevice hrealm
    exact ⟨header, hdecode⟩
  · rintro n rfl hrole hcoordinates rfl now
    have hmessages : List.Forall₂ (Message.Carries sender) arrivals (parts.map Message.advert) :=
      List.forall₂_map_right_iff.mpr hcarries
    rw [Node.receiveAll_manager_of_carries hmessages hdevice hrealm hrole,
      Node.foldl_handOver_advert hcoordinates,
      Registry.foldl_tryUpdate_of_updateAll haccepted]
  · intro link hlink
    refine ⟨Registry.exists_find?_renewAll hnames (hperm.mem_iff.mpr hlink) source, fun ttl => ?_⟩
    rw [Registry.lists_renewAll_node, hids]
    simp [List.mem_map_of_mem hlink, Registry.fullTtl]
  · intro id address ttl hother
    rw [Registry.lists_renewAll_node, hids]
    have hnot : ¬ (address = source ∧ id ∈ links.map (·.id)) := not_and.mpr hother
    simp only [hnot, false_and, false_or, not_false_eq_true, true_and]

/-- A node declares 25 links, which take two datagrams, and these arrive in reverse order. The
leader knows the first link from another node, which stays listed. -/
theorem two_adverts_in_reverse :
    let store := KeyStore.empty.define 2 (.ofWord32 0)
    let link (i : Nat) := Link.new .recv (UInt32.ofNat i) 2
    let calls := (List.range 25).map fun i => Declarations.Call.declare store (link i)
    let r := (Registry.empty ⟨26, 2⟩).run [.update (link 0) (.v4 9), .expire]
    let arrivals := (Message.encodeAdvert ⟨3, 7⟩ (Declarations.empty.run calls).links).reverse
    arrivals.length = 2 ∧
    ∃ parts r',
      List.Forall₂
        (fun bytes part => ∃ header, Message.decode ⟨1, 7⟩ bytes = .ok (header, .advert part))
        arrivals parts ∧
      r.updateAll parts.flatten (.v4 5) = .ok r' ∧
      (∀ i < 25, r'.Lists (link i).id (.v4 5) 60) ∧ r'.Lists (link 0).id (.v4 9) 59 := by
  intro store link calls r arrivals
  have hdeclared : (Declarations.empty.run calls).links = (List.range 25).map link := by
    decide +kernel
  have hlinks : r.size + (Declarations.empty.run calls).size ≤ r.limits.maxLinks := by
    rw [Declarations.size, ← List.length_map (·.link), ← Declarations.links, hdeclared]
    decide +kernel
  have hnodes : ∀ e ∈ r.entries.values, e.contributors.length < r.limits.maxContributors := by
    decide +kernel
  have hknown : r.find? (link 0).id = some ⟨link 0, [⟨.v4 9, 59⟩]⟩ := by decide +kernel
  obtain ⟨parts, hread, r', haccepted, -, hlisted, hother⟩ :=
    declared_links_registered calls ⟨3, 7⟩ ⟨1, 7⟩ (by decide) rfl (.v4 5) r hlinks
      (fun _ _ e he _ => hnodes e (r.entries.mem_values_iff.mpr ⟨_, he⟩)) arrivals
      (List.reverse_perm _)
  refine ⟨?_, parts, r', hread, haccepted, fun i hi => ?_, ?_⟩
  · show (Message.encodeAdvert _ (Declarations.empty.run calls).links).reverse.length = 2
    rw [hdeclared]
    decide +kernel
  · have hmem : link i ∈ (Declarations.empty.run calls).links := by
      rw [hdeclared]
      exact List.mem_map_of_mem (List.mem_range.mpr hi)
    exact ((hlisted (link i) hmem).2 60).mpr rfl
  · exact (hother _ _ _ fun haddress => absurd haddress (by decide)).mpr
      ⟨_, hknown, List.mem_singleton_self _⟩

end LinkFabric
