import LinkFabric.Proofs.Segment

/-!
# What the agents of a fleet know

The devices of a fleet have different numbers, and what they announce is true. So all
that an agent observes is true of the device at some place. Devices that are down
announce nothing: what is known of them is from before they went down.

Main results:

* `Fleet.Sound.round`: a round keeps this, whatever has been known since a fixed time.
* `Fleet.Reachable.sound`: every fleet that devices can reach by rounds, renouncing, joining
  and going down has well-ranked agents that know only what is true.
-/

namespace LinkFabric

/-! ## How long an agent has been a candidate -/

namespace Agent

theorem candidateSince_forget_le {a : Agent} {now : Instant} (h : a.candidateSince ≤ now)
    (device : DeviceId) : (a.forget device now).candidateSince ≤ now := by
  rcases forget_cases a device now with ⟨_, _, heq⟩ | ⟨_, heq⟩
  · exact Nat.le_of_eq (congrArg Agent.candidateSince heq)
  · rw [heq]
    exact h

theorem candidateSince_receive_le {a : Agent} {now : Instant} (h : a.candidateSince ≤ now)
    (source : Address) (b : Beacon) : (a.receive source b now).1.candidateSince ≤ now := by
  generalize hr : a.receive source b now = r
  cases receive_reaction hr with
  | own | noted | followed | yielded => exact h
  | forgot => exact candidateSince_forget_le h b.device

theorem candidateSince_tick_le {a : Agent} {now : Instant} (h : a.candidateSince ≤ now) :
    (a.tick now).candidateSince ≤ now := by
  generalize ht : a.tick now = a'
  cases tick_turn ht with
  | led | followed | waited | promoted | chose | undecided => exact h
  | released => exact Nat.le_refl _

end Agent

/-! ## Knowledge -/

namespace Site

/-- What can be known at a site: what is true of the device at some place, and has been heard
by now. From devices that are down nothing has been heard since `quiet`. -/
def Knows (s : Site) (quiet : Instant) (device : DeviceId) (p : Peer) : Prop :=
  p.lastSeen ≤ s.now ∧
    ∃ place, s.Lists place device p ∧ (s.isUp place = true ∨ p.lastSeen ≤ quiet)

theorem Distinct.onePriority_knows {s : Site} (h : s.Distinct) (quiet : Instant) :
    Agent.OnePriority (s.Knows quiet) :=
  h.onePriority fun _ _ hp => hp.2.imp fun _ hplace => hplace.1

/-- What is known stays known when time passes and devices join. -/
theorem Knows.later {s s' : Site} {quiet quiet' : Instant} {device : DeviceId} {p : Peer}
    (h : s.Knows quiet device p) (hnow : s.now ≤ s'.now)
    (hroster : ∀ (i : Nat) c, s.roster[i]? = some c → s'.roster[i]? = some c)
    (hquiet : s'.down = s.down ∧ quiet ≤ quiet' ∨ s.now ≤ quiet') : s'.Knows quiet' device p := by
  obtain ⟨hseen, place, ⟨config, hconfig, hdev, hprio⟩, hup⟩ := h
  refine ⟨Nat.le_trans hseen hnow, place, ⟨config, hroster place _ hconfig, hdev, hprio⟩, ?_⟩
  rcases hquiet with ⟨hdown, hle⟩ | hle
  · unfold isUp at *
    rw [hdown]
    exact hup.imp_right fun h => Nat.le_trans h hle
  · exact Or.inr (Nat.le_trans hseen hle)

end Site

namespace Fleet

/-- The devices have different numbers. -/
def Distinct (f : Fleet) : Prop := (f.members.map (·.agent.config.device)).Nodup

instance (f : Fleet) : Decidable f.Distinct := inferInstanceAs (Decidable (List.Nodup _))

theorem distinct_site {f : Fleet} : f.site.Distinct ↔ f.Distinct := by
  unfold Site.Distinct Distinct site
  rw [List.map_map]
  rfl

theorem lists_of_member {f : Fleet} {i : Nat} {m : Member} (h : f.members[i]? = some m)
    (seen : Instant) :
    f.site.Lists i m.agent.config.device ⟨m.agent.config.priority, m.address, seen⟩ :=
  ⟨m.agent.config, roster_of_member h, rfl, rfl⟩

/-- An announcement keeps what is true of all agents, if what devices announce is allowed
to be known. -/
theorem rankInv_announce {f : Fleet} {vouched : DeviceId → Peer → Prop}
    (hone : Agent.OnePriority vouched)
    (hnew : ∀ i m, f.members[i]? = some m → f.isUp i = true →
      vouched m.agent.config.device ⟨m.agent.config.priority, m.address, f.now⟩)
    (h : f.Each fun _ a => a.RankInv vouched) (place : Nat) :
    (f.announce place).Each fun _ a => a.RankInv vouched := by
  rcases announce_cases f place with ⟨m, hm, hup, _, heq⟩ | ⟨_, heq⟩
  · rw [heq]
    refine Each.broadcast hm _ ?_ ?_ ?_
    · intro i n hn _ _
      exact (h i n hn).receive hone fun _ => hnew place m hm hup
    · intro i n hn _
      exact h i n hn
    · intro k n _ _ i m a _ _ _ _ _ ha
      exact ha.forget _ _
  · rw [heq]
    exact h

theorem candidateSince_announce_le {f : Fleet} (h : f.Each fun _ a => a.candidateSince ≤ f.now)
    (place : Nat) : (f.announce place).Each fun _ a => a.candidateSince ≤ f.now := by
  rcases announce_cases f place with ⟨m, hm, _, _, heq⟩ | ⟨_, heq⟩
  · rw [heq]
    refine Each.broadcast hm _ ?_ ?_ ?_
    · intro i n hn _ _
      exact Agent.candidateSince_receive_le (h i n hn) _ _
    · intro i n hn _
      exact h i n hn
    · intro k n _ _ i m a _ _ _ _ _ ha
      exact Agent.candidateSince_forget_le ha _
  · rw [heq]
    exact h

/-! ## Sound fleets -/

/-- All agents are well-ranked and know only what is true; no candidate is from the future. -/
structure Sound (quiet : Instant) (f : Fleet) : Prop where
  ranked : f.Each fun _ a => a.RankInv (f.site.Knows quiet)
  since : f.Each fun _ a => a.candidateSince ≤ f.now

theorem Sound.pass {quiet : Instant} {f : Fleet} (h : f.Sound quiet) (step : Span) :
    (f.pass step).Sound quiet where
  ranked := by
    refine h.ranked.imp fun _ a ha => ha.mono fun _ _ hp => ?_
    exact hp.later (Nat.le_add_right _ _) (fun _ _ hc => hc) (Or.inl ⟨rfl, Nat.le_refl _⟩)
  since := h.since.imp fun _ _ ha => Nat.le_trans ha (Nat.le_add_right _ _)

theorem Sound.announce {quiet : Instant} {f : Fleet} (h : f.Sound quiet) (hid : f.Distinct)
    (place : Nat) : (f.announce place).Sound quiet where
  ranked := by
    rw [site_announce]
    refine rankInv_announce ((distinct_site.mpr hid).onePriority_knows quiet) ?_ h.ranked place
    intro i m hm hup
    exact ⟨Nat.le_refl _, i, lists_of_member hm f.now, Or.inl hup⟩
  since := by
    have hnow : (f.announce place).now = f.now := congrArg Site.now (site_announce f place)
    rw [hnow]
    exact candidateSince_announce_le h.since place

/-- What agents know after their ticks, they heard of in time. -/
theorem rankInv_tick {f : Fleet} {vouched : DeviceId → Peer → Prop} {i : Nat} {m : Member}
    (h : f.Each fun _ a => a.RankInv vouched) (hm : f.tick.members[i]? = some m)
    (hup : f.isUp i = true) :
    m.agent.RankInv fun device p =>
      vouched device p ∧ f.now.since p.lastSeen < m.agent.config.leaderTimeout := by
  obtain ⟨n, hn, _, ⟨_, heq⟩ | ⟨hdown, _⟩⟩ := tick_member hm
  · rw [heq, Agent.config_tick]
    exact (h i n hn).tick f.now
  · rw [hup] at hdown
    cases hdown

theorem Sound.tick {quiet : Instant} {f : Fleet} (h : f.Sound quiet) : f.tick.Sound quiet where
  ranked := by
    rw [site_tick]
    refine Each.tick ?_ fun i m hm _ => h.ranked i m hm
    intro i m hm _
    exact ((h.ranked i m hm).tick f.now).mono fun _ _ hp => hp.1
  since :=
    Each.tick (fun i m hm _ => Agent.candidateSince_tick_le (h.since i m hm))
      fun i m hm _ => h.since i m hm

theorem distinct_of_site_eq {f g : Fleet} (h : g.site = f.site) (hid : f.Distinct) : g.Distinct :=
  distinct_site.mp (h ▸ distinct_site.mpr hid)

theorem Sound.beacons {quiet : Instant} {f : Fleet} (h : f.Sound quiet) (hid : f.Distinct) :
    f.beacons.Sound quiet :=
  (beacons_induction (P := fun _ g => g.Sound quiet) h fun _ place _ hsite hg =>
    hg.announce (distinct_of_site_eq hsite hid) place).2

/-- A round keeps a fleet sound. -/
theorem Sound.round {quiet : Instant} {f : Fleet} (h : f.Sound quiet) (hid : f.Distinct)
    (step : Span) : (f.round step).Sound quiet := by
  rw [round_eq]
  exact ((h.pass step).beacons hid).tick

/-! ## Reachable fleets -/

/-- What becomes of a fleet by events, in their order. -/
def run (f : Fleet) (events : List FleetEvent) : Fleet := events.foldl step f

theorem run_append_singleton (f : Fleet) (events : List FleetEvent) (e : FleetEvent) :
    f.run (events ++ [e]) = (f.run events).step e := by
  unfold run
  rw [List.foldl_append, List.foldl_cons, List.foldl_nil]

/-- Renouncing makes others forget, and nothing else. -/
theorem Each.drop {f : Fleet} {P : Nat → Agent → Prop} (h : f.Each P)
    (hforget : ∀ i a device, P i a → P i (a.forget device f.now)) (place : Nat) :
    (f.drop place).Each P := by
  unfold Fleet.drop
  cases hm : f.members[place]? with
  | none => exact h
  | some m =>
    refine Each.broadcast hm _ ?_ (fun i n hn _ => h i n hn) ?_
    · intro i n hn _ _
      generalize hr : n.agent.receive m.address (m.agent.beacon true f.now) f.now = r
      cases Agent.receive_reaction hr with
      | own => exact h i n hn
      | forgot => exact hforget i n.agent _ (h i n hn)
      | noted hne hkeep | followed _ _ hne hkeep | yielded hne hkeep =>
        rw [Agent.isDrop_beacon] at hkeep
        cases hkeep
    · intro k n _ _ i m a _ _ _ _ _ ha
      exact hforget i a _ ha

theorem site_drop (f : Fleet) (place : Nat) : (f.drop place).site = f.site := by
  unfold drop
  cases f.members[place]? with
  | none => rfl
  | some m => exact site_broadcast f place _

/-- Events keep the devices at their places. -/
theorem roster_step (f : Fleet) (e : FleetEvent) {i : Nat} {c : Address × ElectionConfig}
    (h : f.site.roster[i]? = some c) : (f.step e).site.roster[i]? = some c := by
  cases e with
  | round span => exact (congrArg Site.roster (site_round f span)) ▸ h
  | drop place => exact (congrArg Site.roster (site_drop f place)) ▸ h
  | setDown places => exact h
  | join address config =>
    have hlt : i < f.site.roster.length := (List.getElem?_eq_some_iff.mp h).1
    simp only [step, site, List.map_append] at *
    rw [List.getElem?_append_left hlt]
    exact h

theorem now_le_step (f : Fleet) (e : FleetEvent) : f.now ≤ (f.step e).now := by
  cases e with
  | round span =>
    have hnow : (f.round span).now = f.now + span := congrArg Site.now (site_round f span)
    exact hnow ▸ Nat.le_add_right _ _
  | drop place => exact Nat.le_of_eq (congrArg Site.now (site_drop f place)).symm
  | setDown places => exact Nat.le_refl _
  | join address config => exact Nat.le_refl _

/-- Devices that are distinct after an event were so before it. -/
theorem distinct_of_step {f : Fleet} {e : FleetEvent} (h : (f.step e).Distinct) : f.Distinct := by
  cases e with
  | round span =>
    have hpass : (f.pass span).Distinct := distinct_of_site_eq (site_round f span).symm h
    exact hpass
  | drop place => exact distinct_of_site_eq (site_drop f place).symm h
  | setDown places => exact h
  | join address config =>
    unfold Distinct step at *
    rw [List.map_append] at h
    exact h.sublist (List.sublist_append_left _ _)

/-- In a sound fleet all that is known has been heard by now. -/
theorem Sound.now {quiet : Instant} {f : Fleet} (h : f.Sound quiet) : f.Sound f.now :=
  ⟨h.ranked.imp fun _ _ ha => ha.mono fun _ _ hp =>
    hp.later (Nat.le_refl _) (fun _ _ hc => hc) (Or.inr (Nat.le_refl _)), h.since⟩

theorem Sound.step {f : Fleet} (h : f.Sound f.now) (hid : f.Distinct) (e : FleetEvent) :
    (f.step e).Sound (f.step e).now := by
  have hknows : ∀ device p, f.site.Knows f.now device p →
      (f.step e).site.Knows (f.step e).now device p := fun _ _ hp =>
    hp.later (now_le_step f e) (fun _ _ hc => roster_step f e hc) (Or.inr (now_le_step f e))
  cases e with
  | round span => exact (h.round hid span).now
  | drop place =>
    have hnow : (f.drop place).now = f.now := congrArg Site.now (site_drop f place)
    refine ⟨?_, ?_⟩
    · refine Each.imp (Each.drop h.ranked (fun _ _ _ ha => ha.forget _ _) place) ?_
      exact fun _ _ ha => ha.mono hknows
    · refine Each.imp (Each.drop h.since ?_ place) ?_
      · exact fun _ _ _ ha => Agent.candidateSince_forget_le ha _
      · exact fun _ _ ha => hnow ▸ ha
  | setDown places => exact ⟨h.ranked.imp fun _ _ ha => ha.mono hknows, h.since⟩
  | join address config =>
    -- the new device has heard of nobody
    have hjoin : ∀ (i : Nat) (m : Member), (f.step (.join address config)).members[i]? = some m →
        f.members[i]? = some m ∨ m.agent = .start config f.now := by
      intro i m hm
      rw [Fleet.step, List.getElem?_append] at hm
      split_ifs at hm
      · exact Or.inl hm
      · have := List.mem_of_getElem? hm
        rw [List.mem_singleton] at this
        exact Or.inr (by rw [this])
    refine ⟨?_, ?_⟩
    · intro i m hm
      rcases hjoin i m hm with hold | hnew
      · exact (h.ranked i m hold).mono hknows
      · exact hnew ▸ .start config f.now
    · intro i m hm
      rcases hjoin i m hm with hold | hnew
      · exact h.since i m hold
      · exact hnew ▸ Nat.le_refl _

theorem sound_start (devices : List (Address × ElectionConfig)) :
    (Fleet.start devices).Sound (Fleet.start devices).now := by
  have hnew : ∀ (i : Nat) (m : Member), (Fleet.start devices).members[i]? = some m →
      ∃ config, m.agent = .start config 0 := by
    intro i m hm
    unfold start at hm
    rw [List.getElem?_map, Option.map_eq_some_iff] at hm
    obtain ⟨d, _, rfl⟩ := hm
    exact ⟨d.2, rfl⟩
  refine ⟨?_, ?_⟩
  · intro i m hm
    obtain ⟨config, heq⟩ := hnew i m hm
    exact heq ▸ .start config 0
  · intro i m hm
    obtain ⟨config, heq⟩ := hnew i m hm
    exact heq ▸ Nat.le_refl _

theorem sound_run (devices : List (Address × ElectionConfig)) (events : List FleetEvent)
    (hid : ((Fleet.start devices).run events).Distinct) :
    ((Fleet.start devices).run events).Sound ((Fleet.start devices).run events).now := by
  induction events using List.reverseRecOn with
  | nil => exact sound_start devices
  | append_singleton events e ih =>
    rw [run_append_singleton] at hid ⊢
    exact (ih (distinct_of_step hid)).step (distinct_of_step hid) e

/-- New devices have come to this by rounds, renouncing, joining and going down. -/
def Reachable (f : Fleet) : Prop :=
  ∃ devices events, f = (Fleet.start devices).run events

/-- Every reachable fleet is sound. -/
theorem Reachable.sound {f : Fleet} (h : f.Reachable) (hid : f.Distinct) : f.Sound f.now := by
  obtain ⟨devices, events, rfl⟩ := h
  exact sound_run devices events hid

end Fleet

end LinkFabric
