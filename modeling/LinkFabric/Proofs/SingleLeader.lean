import LinkFabric.Proofs.FleetInvariant

/-!
# At most one leader

On a segment that loses nothing, the devices that lead at the end of a round have all
sent their beacon in it, and the beacon of a device is only forgotten when that device
steps down. So each leader has heard of each other leader, and outranks it: there is
only one.

Main results:

* `Fleet.told_announce`, `Fleet.Told.announce`: who announces itself is heard of, and stays
  so unless it steps down.
* `one_leader_after_round`: after every round at most one device that is up leads.
-/

namespace LinkFabric

namespace Fleet

/-! ## Word of a device -/

/-- All others that are up have just heard of the device at a place. -/
def Told (f : Fleet) (i : Nat) (address : Address) (config : ElectionConfig) : Prop :=
  f.Each fun j a => j ≠ i → f.isUp j = true →
    a.observed.find? config.device = some ⟨config.priority, address, f.now⟩

theorem device_ne {f : Fleet} (hid : f.Distinct) {i j : Nat} {m n : Member}
    (hm : f.members[i]? = some m) (hn : f.members[j]? = some n) (hij : i ≠ j) :
    m.agent.config.device ≠ n.agent.config.device := fun heq =>
  hij ((distinct_site.mpr hid).place_eq (roster_of_member hm) (roster_of_member hn) heq)

/-- A device that steps down follows the sender once the broadcast is over. -/
theorem role_of_yields {f : Fleet} (hid : f.Distinct) {sender k : Nat} {source n : Member}
    (hs : f.members[sender]? = some source) (hn : f.members[k]? = some n)
    (hyield : f.Yields sender (source.agent.beacon false f.now) k n.agent) :
    (f.broadcast sender (source.agent.beacon false f.now)).Each fun j a =>
      j = k → a.role = .follower source.agent.config.device source.address := by
  refine Each.broadcast hs _ ?_ ?_ ?_
  · rintro j m hm hne _ rfl
    obtain rfl := Option.some.inj (hm.symm.trans hn)
    refine Agent.role_receive_of_outranked ?_ ?_ hyield.may hyield.leads hyield.outranked _ _
    · exact device_ne hid hs hm (Ne.symm hne)
    · exact Agent.isDrop_beacon _ _ _
  · rintro j m _ (hj | hj) rfl
    · exact absurd hj hyield.other
    · rw [hyield.up] at hj
      cases hj
  · -- the others that step down are not the one it follows
    intro k' n' hn' hyield' j m a _ _ _ _ _ ha hj
    rcases Agent.forget_cases a n'.agent.config.device f.now with ⟨address, hrole, _⟩ | ⟨_, heq⟩
    · rw [ha hj] at hrole
      exact absurd (Role.follower.inj hrole).1 (device_ne hid hs hn' (Ne.symm hyield'.other))
    · rw [heq]
      exact ha hj

/-- A broadcast tells of its sender, and keeps word of a device that does not step down. -/
theorem told_broadcast {f : Fleet} (hid : f.Distinct) {sender i : Nat} {source m : Member}
    (hs : f.members[sender]? = some source) (hm : f.members[i]? = some m)
    (hknown : i = sender ∨ f.Told i m.address m.agent.config)
    (hstay : ¬ f.Yields sender (source.agent.beacon false f.now) i m.agent) :
    (f.broadcast sender (source.agent.beacon false f.now)).Told i m.address m.agent.config := by
  unfold Told
  have hsite := site_broadcast f sender (source.agent.beacon false f.now)
  simp only [← site_isUp, hsite]
  have hnow := congrArg Site.now hsite
  simp only [site] at hnow
  rw [hnow]
  refine Each.broadcast hs _ ?_ ?_ ?_
  · intro j n hn hne _ hji hup
    have hdev := device_ne hid hs hn (Ne.symm hne)
    rw [Agent.observed_receive_of_keep hdev (Agent.isDrop_beacon _ _ _), Agent.find?_observe]
    split_ifs with heq
    · -- the beacon is the device's own
      have his : i = sender := by
        by_contra hcon
        exact device_ne hid hm hs hcon heq
      subst his
      obtain rfl := Option.some.inj (hm.symm.trans hs)
      rfl
    · rcases hknown with rfl | htold
      · obtain rfl := Option.some.inj (hm.symm.trans hs)
        exact absurd rfl heq
      · exact htold j n hn hji hup
  · rintro j n hn (hj | hj) hji hup
    · rcases hknown with rfl | htold
      · exact absurd hj hji
      · exact htold j n hn hji hup
    · rw [site_isUp, hj] at hup
      cases hup
  · intro k n hn hyield j _ a _ _ _ _ _ ha hji hup
    have hki : k ≠ i := by
      rintro rfl
      obtain rfl := Option.some.inj (hm.symm.trans hn)
      exact hstay hyield
    rw [Agent.observed_forget, SortedMap.find?_erase_of_ne _ (device_ne hid hm hn (Ne.symm hki))]
    exact ha hji hup

/-- A device that announces itself is heard of. -/
theorem told_announce {f : Fleet} (hid : f.Distinct) {i : Nat} {m : Member}
    (hm : f.members[i]? = some m) (hup : f.isUp i = true) (hsend : m.agent.Contends) :
    (f.announce i).Told i m.address m.agent.config := by
  rcases announce_cases f i with ⟨n, hn, _, _, heq⟩ | ⟨hno, _⟩
  · obtain rfl := Option.some.inj (hm.symm.trans hn)
    rw [heq]
    exact told_broadcast hid hm hm (Or.inl rfl) fun hyield => hyield.other rfl
  · exact absurd hsend (hno m hm hup)

/-- Word of a device stays while others announce themselves, unless it becomes a follower. -/
theorem Told.announce {f : Fleet} (hid : f.Distinct) {i : Nat} {m : Member}
    (hm : f.members[i]? = some m) (h : f.Told i m.address m.agent.config) (place : Nat)
    (hstay : (f.announce place).Each fun j a => j = i → ∀ leader address,
      a.role ≠ .follower leader address) :
    (f.announce place).Told i m.address m.agent.config := by
  rcases announce_cases f place with ⟨source, hs, _, _, heq⟩ | ⟨_, heq⟩
  · rw [heq] at hstay ⊢
    refine told_broadcast hid hs hm (Or.inr h) fun hyield => ?_
    obtain ⟨m', hm', _⟩ := member_of_site_eq (site_broadcast f place _).symm hm
    exact hstay i m' hm' rfl _ _ (role_of_yields hid hs hm hyield i m' hm' rfl)
  · rw [heq]
    exact h

end Fleet

/-! ## Who can lead after a tick -/

namespace Agent

/-- An agent that leads, or may do so at a tick now. -/
def Ready (a : Agent) (now : Instant) : Prop :=
  a.role = .leader ∨
    a.role = .candidate ∧ 0 < a.config.priority ∧ a.config.window ≤ now.since a.candidateSince

theorem Ready.contends {a : Agent} {now : Instant} (h : a.Ready now) : a.Contends :=
  h.imp_right fun h => ⟨h.1, h.2.1⟩

theorem Ready.not_follower {a : Agent} {now : Instant} (h : a.Ready now) (leader : DeviceId)
    (address : Address) : a.role ≠ .follower leader address := by
  intro hrole
  rcases h with h | ⟨h, _⟩ <;> rw [hrole] at h <;> cases h

theorem ready_of_leads_tick {a : Agent} {now : Instant} (h : (a.tick now).role = .leader) :
    a.Ready now := by
  generalize ht : a.tick now = a' at h
  cases tick_turn ht with
  | led hrole => exact Or.inl hrole
  | promoted hrole hwindow hmay hbest => exact Or.inr ⟨hrole, hmay, hwindow⟩
  | released | chose => cases h
  | followed _ _ _ hrole | waited hrole | undecided hrole =>
    have h : a.role = .leader := h
    rw [hrole] at h
    cases h

/-- Who lets go of a leader now has to wait for a window. -/
theorem ready_of_forget {a : Agent} {now : Instant} (hwindow : 0 < a.config.window)
    {device : DeviceId} (h : (a.forget device now).Ready now) : a.Ready now := by
  rcases forget_cases a device now with ⟨address, _, heq⟩ | ⟨_, heq⟩
  · rw [heq] at h
    rcases h with h | ⟨_, _, h⟩
    · cases h
    · unfold Instant.since at h
      rw [Nat.sub_self] at h
      exact absurd h (Nat.not_le.mpr hwindow)
  · rw [heq] at h
    exact h

theorem ready_of_receive {a : Agent} {now : Instant} (hwindow : 0 < a.config.window)
    {source : Address} {b : Beacon} (h : (a.receive source b now).1.Ready now) : a.Ready now := by
  generalize hr : a.receive source b now = r at h
  cases receive_reaction hr with
  | own | noted => exact h
  | forgot => exact ready_of_forget hwindow h
  | followed | yielded => exact absurd rfl (h.not_follower b.device source)

end Agent

namespace Fleet

/-- Who is ready after an announcement was so before. -/
theorem ready_of_announce {f : Fleet} {i : Nat} {m m' : Member} (hm : f.members[i]? = some m)
    (hwindow : 0 < m.agent.config.window) {place : Nat}
    (hm' : (f.announce place).members[i]? = some m') (h : m'.agent.Ready f.now) :
    m.agent.Ready f.now := by
  by_contra hnot
  rcases announce_cases f place with ⟨source, hs, _, _, heq⟩ | ⟨_, heq⟩
  · rw [heq] at hm'
    refine Each.broadcast (P := fun j a => j = i → ¬ a.Ready f.now) hs _ ?_ ?_ ?_ i m' hm' rfl h
    · rintro j n hn _ _ rfl
      obtain rfl := Option.some.inj (hn.symm.trans hm)
      exact fun hready => hnot (Agent.ready_of_receive hwindow hready)
    · rintro j n hn _ rfl
      obtain rfl := Option.some.inj (hn.symm.trans hm)
      exact hnot
    · rintro k n _ _ j n' a hn' hconfig _ _ _ ha rfl
      obtain rfl := Option.some.inj (hn'.symm.trans hm)
      exact fun hready => ha rfl (Agent.ready_of_forget (hconfig ▸ hwindow) hready)
  · rw [heq, hm] at hm'
    cases hm'
    exact hnot h

/-- All have just heard of those that are ready, among the places given. -/
def ReadyTold (f : Fleet) (places : List Nat) : Prop :=
  ∀ i ∈ places, ∀ m, f.members[i]? = some m → f.isUp i = true → m.agent.Ready f.now →
    f.Told i m.address m.agent.config

/-- An announcement adds its place to those that others have heard of. -/
theorem ReadyTold.announce {f : Fleet} (hid : f.Distinct)
    (hwindow : f.Each fun _ a => 0 < a.config.window) {done : List Nat} (h : f.ReadyTold done)
    (place : Nat) : (f.announce place).ReadyTold (done ++ [place]) := by
  intro i hi m' hm' hup hready
  have hsite := site_announce f place
  have hnow : (f.announce place).now = f.now := congrArg Site.now hsite
  rw [isUp_of_site_eq hsite] at hup
  obtain ⟨m, hm, haddr, hconfig⟩ := member_of_site_eq hsite hm'
  have hbefore : m.agent.Ready f.now :=
    ready_of_announce hm (hwindow i m hm) hm' (hnow ▸ hready)
  rw [haddr, hconfig]
  rcases List.mem_append.mp hi with hi | hi
  · refine (h i hi m hm hup hbefore).announce hid hm place ?_
    rintro j n hn rfl
    obtain rfl := Option.some.inj (hn.symm.trans hm')
    exact hready.not_follower
  · obtain rfl := List.mem_singleton.mp hi
    exact told_announce hid hm hup hbefore.contends

/-- All have just heard of each device that is ready after the beacons of a round. -/
theorem told_of_ready {f : Fleet} (hid : f.Distinct)
    (hwindow : f.Each fun _ a => 0 < a.config.window) {i : Nat} {m : Member}
    (hm : f.beacons.members[i]? = some m) (hup : f.beacons.isUp i = true)
    (h : m.agent.Ready f.beacons.now) : f.beacons.Told i m.address m.agent.config := by
  have hnil : f.ReadyTold [] := fun _ hi => absurd hi List.not_mem_nil
  have hall := beacons_induction (P := fun done g => g.ReadyTold done) (f := f) hnil
    fun done place g hsite hg => hg.announce (distinct_of_site_eq hsite hid)
      (Each.of_roster_eq (congrArg Site.roster hsite) (0 < ·.window) hwindow) place
  have hlt : i < f.members.length := by
    rw [← length_of_site_eq hall.1]
    exact (List.getElem?_eq_some_iff.mp hm).1
  exact hall.2 i (List.mem_range.mpr hlt) m hm hup h

/-! ## Leaders -/

/-- The device at a place is up and leads. -/
def LeadsAt (f : Fleet) (i : Nat) : Prop :=
  f.isUp i = true ∧ (f.members[i]?).map (·.agent.role) = some .leader

instance (f : Fleet) (i : Nat) : Decidable (f.LeadsAt i) :=
  inferInstanceAs (Decidable (_ ∧ _))

/-- At most one device that is up leads. -/
def OneLeader (f : Fleet) : Prop := ∀ i j, f.LeadsAt i → f.LeadsAt j → i = j

/-- A leader after the ticks of a round outranks every other leader. -/
theorem outranks_of_leaders {quiet : Instant} {f : Fleet} (hsound : f.Sound quiet)
    (hid : f.Distinct)
    (htiming : ∀ m ∈ f.members, 0 < m.agent.config.window ∧ 0 < m.agent.config.leaderTimeout)
    {i j : Nat} {m n : Member} (hm : f.beacons.tick.members[i]? = some m)
    (hn : f.beacons.tick.members[j]? = some n) (hij : i ≠ j)
    (hi : f.beacons.tick.isUp i = true) (hj : f.beacons.tick.isUp j = true)
    (hlead : m.agent.role = .leader) (hlead' : n.agent.role = .leader) :
    n.agent.config.rank.outranks m.agent.config.rank = true := by
  obtain ⟨m₀, hm₀, hagent, hup⟩ := tick_member_up hm hi
  obtain ⟨n₀, hn₀, hagent', hup'⟩ := tick_member_up hn hj
  -- the other one has heard of the first in this round
  have htold : f.beacons.Told i m₀.address m₀.agent.config := by
    refine told_of_ready hid (fun k m hm => (htiming m (List.mem_of_getElem? hm)).1) hm₀ hup ?_
    exact Agent.ready_of_leads_tick (hagent ▸ hlead)
  have hheard := htold j n₀ hn₀ (Ne.symm hij) hup'
  have htimeout : 0 < n₀.agent.config.leaderTimeout := by
    obtain ⟨n₁, hn₁, _, hconfig⟩ := member_of_site_eq (site_beacons f) hn₀
    rw [hconfig]
    exact (htiming n₁ (List.mem_of_getElem? hn₁)).2
  have hseen : n.agent.observed.find? m₀.agent.config.device =
      some ⟨m₀.agent.config.priority, m₀.address, f.beacons.now⟩ := by
    rw [hagent', Agent.observed_tick]
    exact Agent.find?_age_of_now hheard htimeout
  -- and a leader outranks all it observes
  have hranked := ((hsound.beacons hid).tick).ranked j n hn
  have hbeats := (hranked.leads hlead').2 _ _ hseen
  rw [hagent, Agent.config_tick]
  exact hbeats

end Fleet

/-- After every round of a fleet with distinct devices, in whatever state rounds, renouncing,
joining and going down have left it, at most one device that is up leads. -/
theorem one_leader_after_round {f : Fleet} (hf : f.Reachable) (hid : f.Distinct)
    (htiming : ∀ m ∈ f.members, 0 < m.agent.config.window ∧ 0 < m.agent.config.leaderTimeout)
    (step : Span) : (f.round step).OneLeader := by
  have hsound : (f.pass step).Sound f.now := (hf.sound hid).pass step
  rw [Fleet.round_eq]
  rintro i j ⟨hi, hrole⟩ ⟨hj, hrole'⟩
  obtain ⟨m, hm, hlead⟩ := Option.map_eq_some_iff.mp hrole
  obtain ⟨n, hn, hlead'⟩ := Option.map_eq_some_iff.mp hrole'
  by_contra hij
  have hfirst := Fleet.outranks_of_leaders hsound hid htiming hm hn hij hi hj hlead hlead'
  have hsecond :=
    Fleet.outranks_of_leaders hsound hid htiming hn hm (Ne.symm hij) hj hi hlead' hlead
  exact Rank.not_outranks_both hfirst hsecond

/-- Two devices that have each led alone while the other was down. -/
def rivals : Fleet :=
  let device (id : UInt64) (priority : UInt16) : Address × ElectionConfig :=
    (.ofOctets 10 0 0 id.toNat, { device := id, priority, window := 30, leaderTimeout := 40 })
  (Fleet.start [device 1 5, device 2 9]).run
    [.setDown [1], .round 30, .setDown [0], .round 30, .setDown []]

/-- Both lead when they meet, but no longer after a round. -/
theorem one_leader_after_rivals_meet :
    rivals.LeadsAt 0 ∧ rivals.LeadsAt 1 ∧ rivals.Distinct ∧ (rivals.round 0).LeadsAt 1 ∧
      (rivals.round 0).OneLeader :=
  ⟨by decide, by decide, by decide, by decide,
    one_leader_after_round ⟨_, _, rfl⟩ (by decide) (by decide) 0⟩

end LinkFabric
