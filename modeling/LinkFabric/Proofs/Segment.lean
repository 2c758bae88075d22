import LinkFabric.Proofs.RankInvariant
import Mathlib.Data.List.Induction

/-!
# Exchanges on a segment

What a beacon does to a fleet, seen from one place. Who is on the segment, who is down
and what time it is make up the site; an exchange of beacons keeps the site, and every
device only ever takes in beacons of others. A device that steps down tells the others,
who forget it.

Main results:

* `Fleet.Each.broadcast`: what holds at every place after a broadcast and its answers.
* `Fleet.beacons_induction`: what every announcement keeps, the beacons of a round keep.
* `Fleet.tick_member`: what the ticks of a round do at a place.
-/

namespace LinkFabric

/-! ## The site -/

/-- Who is on a segment, with which address and settings, who is down, and what time it is. -/
structure Site where
  roster : List (Address × ElectionConfig)
  down : List Nat
  now : Instant

namespace Site

/-- Whether the device at a place is up. -/
def isUp (s : Site) (place : Nat) : Bool := !s.down.contains place

/-- What is known of a device is true of the device at a place. -/
def Lists (s : Site) (place : Nat) (device : DeviceId) (p : Peer) : Prop :=
  ∃ config, s.roster[place]? = some (p.address, config) ∧ config.device = device ∧
    config.priority = p.priority

/-- No two devices have the same number. -/
def Distinct (s : Site) : Prop := (s.roster.map (·.2.device)).Nodup

theorem Distinct.place_eq {s : Site} (h : s.Distinct) {i j : Nat} {c c' : Address × ElectionConfig}
    (hi : s.roster[i]? = some c) (hj : s.roster[j]? = some c') (heq : c.2.device = c'.2.device) :
    i = j := by
  have hlen : i < (s.roster.map (·.2.device)).length := by
    rw [List.length_map]
    exact (List.getElem?_eq_some_iff.mp hi).1
  refine (List.getElem?_inj hlen h).mp ?_
  rw [List.getElem?_map, List.getElem?_map, hi, hj, Option.map_some, Option.map_some, heq]

theorem Lists.place_eq {s : Site} (h : s.Distinct) {i j : Nat} {device : DeviceId} {p q : Peer}
    (hi : s.Lists i device p) (hj : s.Lists j device q) : i = j := by
  obtain ⟨c, hc, hdev, _⟩ := hi
  obtain ⟨c', hc', hdev', _⟩ := hj
  exact h.place_eq hc hc' (hdev.trans hdev'.symm)

/-- Peers listed at some place have one priority for each device. -/
theorem Distinct.onePriority {s : Site} (h : s.Distinct) {vouched : DeviceId → Peer → Prop}
    (hlist : ∀ device p, vouched device p → ∃ place, s.Lists place device p) :
    Agent.OnePriority vouched := by
  intro device p q hp hq
  obtain ⟨i, hi⟩ := hlist device p hp
  obtain ⟨j, hj⟩ := hlist device q hq
  obtain rfl := hi.place_eq h hj
  obtain ⟨c, hc, _, hprio⟩ := hi
  obtain ⟨c', hc', _, hprio'⟩ := hj
  obtain ⟨_, rfl⟩ := Prod.mk.inj (Option.some.inj (hc.symm.trans hc'))
  exact hprio.symm.trans hprio'

end Site

namespace Fleet

/-- The site of a fleet. -/
def site (f : Fleet) : Site :=
  ⟨f.members.map fun m => (m.address, m.agent.config), f.down, f.now⟩

theorem site_isUp (f : Fleet) (place : Nat) : f.site.isUp place = f.isUp place := rfl

theorem roster_of_member {f : Fleet} {i : Nat} {m : Member} (h : f.members[i]? = some m) :
    f.site.roster[i]? = some (m.address, m.agent.config) := by
  unfold site
  rw [List.getElem?_map, h, Option.map_some]

theorem member_of_roster {f : Fleet} {i : Nat} {c : Address × ElectionConfig}
    (h : f.site.roster[i]? = some c) :
    ∃ m, f.members[i]? = some m ∧ c = (m.address, m.agent.config) := by
  unfold site at h
  rw [List.getElem?_map, Option.map_eq_some_iff] at h
  obtain ⟨m, hm, rfl⟩ := h
  exact ⟨m, hm, rfl⟩

/-- Fleets on one site have the same devices at the same places. -/
theorem member_of_site_eq {f g : Fleet} (h : g.site = f.site) {i : Nat} {m : Member}
    (hm : g.members[i]? = some m) :
    ∃ n, f.members[i]? = some n ∧ m.address = n.address ∧ m.agent.config = n.agent.config := by
  obtain ⟨n, hn, heq⟩ := member_of_roster (h ▸ roster_of_member hm)
  exact ⟨n, hn, (Prod.mk.inj heq).1, (Prod.mk.inj heq).2⟩

theorem isUp_of_site_eq {f g : Fleet} (h : g.site = f.site) (place : Nat) :
    g.isUp place = f.isUp place := by
  rw [← site_isUp, h, site_isUp]

theorem length_of_site_eq {f g : Fleet} (h : g.site = f.site) :
    g.members.length = f.members.length := by
  have := congrArg (·.roster.length) h
  simpa [site] using this

/-- A property of the agents at all places. -/
def Each (f : Fleet) (P : Nat → Agent → Prop) : Prop :=
  ∀ i m, f.members[i]? = some m → P i m.agent

theorem Each.imp {f : Fleet} {P Q : Nat → Agent → Prop} (h : f.Each P)
    (himp : ∀ i a, P i a → Q i a) : f.Each Q :=
  fun i m hm => himp i m.agent (h i m hm)

/-! ## One beacon -/

/-- Only devices that are up take in a beacon, and never their own. -/
theorem hear_cases (f : Fleet) (sender : Nat) (source : Address) (b : Beacon) (place : Nat)
    (m : Member) :
    (place ≠ sender ∧ f.isUp place = true ∧
      f.hear sender source b place m =
        ({ m with agent := (m.agent.receive source b f.now).1 },
          (m.agent.receive source b f.now).2)) ∨
    ((place = sender ∨ f.isUp place = false) ∧ f.hear sender source b place m = (m, none)) := by
  unfold hear
  split_ifs with h
  · exact Or.inr ⟨by simpa using h, rfl⟩
  · obtain ⟨hne, hup⟩ := not_or.mp h
    exact Or.inl ⟨hne, by simpa using hup, rfl⟩

theorem address_hear (f : Fleet) (sender : Nat) (source : Address) (b : Beacon) (place : Nat)
    (m : Member) : (f.hear sender source b place m).1.address = m.address := by
  rcases hear_cases f sender source b place m with ⟨_, _, h⟩ | ⟨_, h⟩ <;> rw [h]

theorem config_hear (f : Fleet) (sender : Nat) (source : Address) (b : Beacon) (place : Nat)
    (m : Member) : (f.hear sender source b place m).1.agent.config = m.agent.config := by
  rcases hear_cases f sender source b place m with ⟨_, _, h⟩ | ⟨_, h⟩ <;> rw [h]
  exact Agent.config_receive _ _ _ _

theorem deliver_members {f : Fleet} {sender : Nat} {source : Member}
    (hs : f.members[sender]? = some source) (b : Beacon) (i : Nat) :
    (f.deliver sender b).1.members[i]? =
      f.members[i]?.map fun m => (f.hear sender source.address b i m).1 := by
  unfold deliver
  rw [hs]
  simp only [List.getElem?_map, List.getElem?_zipIdx, Nat.zero_add, Option.map_map]
  rfl

@[simp] theorem site_deliver (f : Fleet) (sender : Nat) (b : Beacon) :
    (f.deliver sender b).1.site = f.site := by
  cases hs : f.members[sender]? with
  | none =>
    unfold deliver
    rw [hs]
  | some source =>
    have hroster : (f.deliver sender b).1.site.roster = f.site.roster := by
      refine List.ext_getElem? fun i => ?_
      unfold site
      simp only [List.getElem?_map, deliver_members hs, Option.map_map]
      cases f.members[i]? with
      | none => rfl
      | some m =>
        simp only [Option.map_some, Function.comp_apply, address_hear, config_hear]
    have hdown : (f.deliver sender b).1.down = f.down := by
      unfold deliver
      rw [hs]
    have hnow : (f.deliver sender b).1.now = f.now := by
      unfold deliver
      rw [hs]
    unfold site at *
    simp only at hroster
    rw [hroster, hdown, hnow]

/-- The device at a place steps down for a beacon. -/
structure Yields (f : Fleet) (sender : Nat) (b : Beacon) (place : Nat) (a : Agent) : Prop where
  other : place ≠ sender
  up : f.isUp place = true
  may : 0 < b.priority
  leads : a.role = .leader
  outranked : b.rank.outranks a.config.rank = true

/-- Those who answer a beacon are those who step down for it. -/
theorem yields_of_mem_deliver {f : Fleet} {sender : Nat} {b : Beacon} {place : Nat} {r : Beacon}
    (h : (place, r) ∈ (f.deliver sender b).2) :
    ∃ m, f.members[place]? = some m ∧ f.Yields sender b place m.agent ∧
      r = m.agent.beacon true f.now := by
  unfold deliver at h
  split at h
  · cases h
  · rename_i source hs
    simp only [List.mem_filterMap, List.mem_zipIdx_iff_getElem?, List.getElem?_map,
      List.getElem?_zipIdx, Option.map_eq_some_iff] at h
    obtain ⟨⟨heard, i⟩, ⟨⟨m, j⟩, ⟨m', hm, hpair⟩, hheard⟩, r', hr, heq⟩ := h
    obtain ⟨rfl, rfl⟩ := Prod.mk.inj heq
    obtain ⟨rfl, rfl⟩ := Prod.mk.inj hpair
    simp only [Nat.zero_add] at hheard hr hm
    subst hheard
    refine ⟨m', hm, ?_⟩
    rcases hear_cases f sender source.address b i m' with ⟨hne, hup, heq⟩ | ⟨_, heq⟩
    · rw [heq] at hr
      simp only at hr
      generalize hrec : m'.agent.receive source.address b f.now = result at hr
      cases Agent.receive_reaction hrec with
      | own | forgot | noted | followed => cases hr
      | yielded hdev hkeep hpos hrole hbetter =>
        cases hr
        exact ⟨⟨hne, hup, hpos, hrole, hbetter⟩, rfl⟩
    · rw [heq] at hr
      cases hr

/-- A property survives a beacon if it survives taking the beacon in. -/
theorem Each.deliver {f : Fleet} {P : Nat → Agent → Prop} {sender : Nat} {source : Member}
    (hs : f.members[sender]? = some source) (b : Beacon)
    (hstep : ∀ i m, f.members[i]? = some m → i ≠ sender → f.isUp i = true →
      P i (m.agent.receive source.address b f.now).1)
    (hrest : ∀ i m, f.members[i]? = some m → i = sender ∨ f.isUp i = false → P i m.agent) :
    (f.deliver sender b).1.Each P := by
  intro i m' hm'
  rw [deliver_members hs, Option.map_eq_some_iff] at hm'
  obtain ⟨m, hm, rfl⟩ := hm'
  rcases hear_cases f sender source.address b i m with ⟨hne, hup, heq⟩ | ⟨hout, heq⟩
  · rw [heq]
    exact hstep i m hm hne hup
  · rw [heq]
    exact hrest i m hm hout

/-! ## A beacon and its answers -/

@[simp] theorem site_broadcast (f : Fleet) (sender : Nat) (b : Beacon) :
    (f.broadcast sender b).site = f.site := by
  unfold broadcast
  refine List.foldlRecOn (motive := fun g : Fleet => g.site = f.site) _ _ ?_ ?_
  · exact site_deliver f sender b
  · intro g hg r _
    rw [site_deliver, hg]

/-- What holds at every place after a broadcast and the answers to it: all that are up take
in the beacon, and then forget those who step down for it. -/
theorem Each.broadcast {f : Fleet} {P : Nat → Agent → Prop} {sender : Nat} {source : Member}
    (hs : f.members[sender]? = some source) (b : Beacon)
    (hbeacon : ∀ i m, f.members[i]? = some m → i ≠ sender → f.isUp i = true →
      P i (m.agent.receive source.address b f.now).1)
    (hrest : ∀ i m, f.members[i]? = some m → i = sender ∨ f.isUp i = false → P i m.agent)
    (hdrop : ∀ k n, f.members[k]? = some n → f.Yields sender b k n.agent →
      ∀ i m a, f.members[i]? = some m → a.config = m.agent.config → i ≠ k → f.isUp i = true →
        n.agent.config.device ≠ a.config.device → P i a →
        P i (a.forget n.agent.config.device f.now)) :
    (f.broadcast sender b).Each P := by
  unfold Fleet.broadcast
  have hinit : (f.deliver sender b).1.site = f.site ∧ (f.deliver sender b).1.Each P :=
    ⟨site_deliver f sender b, Each.deliver hs b hbeacon hrest⟩
  -- the answers come one after the other, each on the same site
  refine (List.foldlRecOn (motive := fun g : Fleet => g.site = f.site ∧ g.Each P) _ _ hinit ?_).2
  rintro g ⟨hsite, hg⟩ ⟨k, r⟩ hr
  obtain ⟨n, hn, hyield, rfl⟩ := yields_of_mem_deliver hr
  refine ⟨(site_deliver g k _).trans hsite, ?_⟩
  have hnow : g.now = f.now := congrArg Site.now hsite
  obtain ⟨n', hn', _, _⟩ := member_of_site_eq hsite.symm hn
  refine Each.deliver hn' _ ?_ ?_
  · intro i m hm hik hi
    obtain ⟨m₀, hm₀, _, hconfig⟩ := member_of_site_eq hsite hm
    rw [hnow]
    by_cases hdev : n.agent.config.device = m.agent.config.device
    · -- with distinct devices this does not happen; a beacon in its own name is ignored
      have hown : (m.agent.receive n'.address (n.agent.beacon true f.now) f.now).1 = m.agent := by
        unfold Agent.receive
        rw [if_pos (by simpa using hdev)]
      rw [hown]
      exact hg i m hm
    · rw [Agent.receive_renouncing m.agent n.agent n'.address f.now hdev]
      have hup : f.isUp i = true := isUp_of_site_eq hsite i ▸ hi
      exact hdrop k n hn hyield i m₀ m.agent hm₀ hconfig hik hup hdev (hg i m hm)
  · intro i m hm _
    exact hg i m hm

/-! ## A round -/

/-- An announcement is the broadcast of a device that is up and contends, or nothing. -/
theorem announce_cases (f : Fleet) (place : Nat) :
    (∃ m, f.members[place]? = some m ∧ f.isUp place = true ∧ m.agent.Contends ∧
      f.announce place = f.broadcast place (m.agent.beacon false f.now)) ∨
    ((∀ m, f.members[place]? = some m → f.isUp place = true → ¬ m.agent.Contends) ∧
      f.announce place = f) := by
  unfold announce
  cases hm : f.members[place]? with
  | none => exact Or.inr ⟨fun m h => (by cases h), rfl⟩
  | some m =>
    simp only
    split_ifs with h
    · rw [Bool.and_eq_true, Agent.contends_iff] at h
      exact Or.inl ⟨m, rfl, h.1, h.2, rfl⟩
    · rw [Bool.and_eq_true, Agent.contends_iff] at h
      refine Or.inr ⟨?_, rfl⟩
      intro m' hm' hup hcontends
      cases hm'
      exact h ⟨hup, hcontends⟩

@[simp] theorem site_announce (f : Fleet) (place : Nat) : (f.announce place).site = f.site := by
  rcases announce_cases f place with ⟨m, _, _, _, heq⟩ | ⟨_, heq⟩
  · rw [heq, site_broadcast]
  · rw [heq]

/-- The fleet after a step of time. -/
def pass (f : Fleet) (step : Span) : Fleet := { f with now := f.now + step }

theorem roster_pass (f : Fleet) (step : Span) : (f.pass step).site.roster = f.site.roster := rfl

/-- The beacons of a round. -/
def beacons (f : Fleet) : Fleet := (List.range f.members.length).foldl announce f

theorem round_eq (f : Fleet) (step : Span) : f.round step = (f.pass step).beacons.tick := rfl

/-- What holds before the beacons of a round, and is kept by every announcement, holds after
them. The property may depend on the places that have had their turn. -/
theorem beacons_induction {P : List Nat → Fleet → Prop} {f : Fleet} (hnil : P [] f)
    (hstep : ∀ done place g, g.site = f.site → P done g → P (done ++ [place]) (g.announce place)) :
    f.beacons.site = f.site ∧ P (List.range f.members.length) f.beacons := by
  unfold beacons
  induction List.range f.members.length using List.reverseRecOn with
  | nil => exact ⟨rfl, hnil⟩
  | append_singleton done place ih =>
    rw [List.foldl_append, List.foldl_cons, List.foldl_nil]
    exact ⟨(site_announce _ place).trans ih.1, hstep done place _ ih.1 ih.2⟩

@[simp] theorem site_beacons (f : Fleet) : f.beacons.site = f.site :=
  (beacons_induction (P := fun _ _ => True) trivial fun _ _ _ _ _ => trivial).1

theorem tick_member {f : Fleet} {i : Nat} {m' : Member} (h : f.tick.members[i]? = some m') :
    ∃ m, f.members[i]? = some m ∧ m'.address = m.address ∧
      (f.isUp i = true ∧ m'.agent = m.agent.tick f.now ∨
        f.isUp i = false ∧ m'.agent = m.agent) := by
  unfold tick at h
  rw [List.getElem?_map, List.getElem?_zipIdx, Option.map_map, Option.map_eq_some_iff] at h
  obtain ⟨m, hm, rfl⟩ := h
  simp only [Function.comp_apply, Nat.zero_add]
  refine ⟨m, hm, ?_⟩
  cases hup : f.isUp i with
  | true => exact ⟨rfl, Or.inl ⟨rfl, rfl⟩⟩
  | false => exact ⟨rfl, Or.inr ⟨rfl, rfl⟩⟩

theorem tick_member_up {f : Fleet} {i : Nat} {m' : Member} (h : f.tick.members[i]? = some m')
    (hup : f.tick.isUp i = true) :
    ∃ m, f.members[i]? = some m ∧ m'.agent = m.agent.tick f.now ∧ f.isUp i = true := by
  have hup : f.isUp i = true := hup
  obtain ⟨m, hm, _, ⟨_, heq⟩ | ⟨hdown, _⟩⟩ := tick_member h
  · exact ⟨m, hm, heq, hup⟩
  · rw [hup] at hdown
    cases hdown

theorem Each.tick {f : Fleet} {P : Nat → Agent → Prop}
    (hup : ∀ i m, f.members[i]? = some m → f.isUp i = true → P i (m.agent.tick f.now))
    (hdown : ∀ i m, f.members[i]? = some m → f.isUp i = false → P i m.agent) : f.tick.Each P := by
  intro i m' hm'
  obtain ⟨m, hm, _, ⟨hi, heq⟩ | ⟨hi, heq⟩⟩ := tick_member hm'
  · rw [heq]
    exact hup i m hm hi
  · rw [heq]
    exact hdown i m hm hi

@[simp] theorem site_tick (f : Fleet) : f.tick.site = f.site := by
  have hroster : f.tick.site.roster = f.site.roster := by
    refine List.ext_getElem? fun i => ?_
    unfold site tick
    simp only [List.getElem?_map, List.getElem?_zipIdx, Option.map_map]
    cases f.members[i]? with
    | none => rfl
    | some m =>
      simp only [Option.map_some, Function.comp_apply]
      split_ifs
      · rw [Agent.config_tick]
      · rfl
  unfold site at *
  simp only at hroster
  rw [hroster]
  rfl

/-- A round keeps the site but for the time. -/
theorem site_round (f : Fleet) (step : Span) : (f.round step).site = (f.pass step).site := by
  rw [round_eq, site_tick, site_beacons]

theorem roster_beacons (f : Fleet) (step : Span) :
    (f.pass step).beacons.site.roster = f.site.roster :=
  (congrArg Site.roster (site_beacons (f.pass step))).trans (roster_pass f step)

theorem roster_round (f : Fleet) (step : Span) : (f.round step).site.roster = f.site.roster :=
  (congrArg Site.roster (site_round f step)).trans (roster_pass f step)

/-- What is true of the settings of all devices is so in every fleet of them. -/
theorem Each.of_roster_eq {f g : Fleet} (h : g.site.roster = f.site.roster)
    (P : ElectionConfig → Prop) (hf : f.Each fun _ a => P a.config) :
    g.Each fun _ a => P a.config := by
  intro i m hm
  obtain ⟨n, hn, heq⟩ := member_of_roster (h ▸ roster_of_member hm)
  rw [(Prod.mk.inj heq).2]
  exact hf i n hn

end Fleet

end LinkFabric
