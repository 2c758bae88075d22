import LinkFabric.Proofs.SingleLeader
import Mathlib.Data.Finset.Max

/-!
# A fleet settles on its best device

Whatever has happened to a fleet, once nothing but rounds happens, the device that may
lead and outranks all others that are up becomes the leader, and all others follow it.

After the longest timeout nobody remembers a device that is down. From then on the best
device never follows, so it announces itself in every round; a device that hears it
follows it or is a candidate, and nobody becomes a candidate anew, because all that follow
a device that steps down have just heard of a better one. After the longest window the
candidates have decided.

Main results:

* `Fleet.Settling.round`: what holds from the longest timeout on is kept by rounds.
* `Fleet.Settling.settled_round`: after the longest window a round leaves the fleet settled.
* `fleet_stabilises`: the two together, from any reachable fleet.
-/

namespace LinkFabric

/-! ## The best device -/

namespace Site

/-- The device at a place is up, may lead, and outranks all others of which this is true. -/
structure Best (s : Site) (place : Nat) (address : Address) (config : ElectionConfig) : Prop where
  listed : s.roster[place]? = some (address, config)
  up : s.isUp place = true
  may : 0 < config.priority
  best : ∀ (j : Nat) c, s.roster[j]? = some c → s.isUp j = true → 0 < c.2.priority → j ≠ place →
    config.rank.outranks c.2.rank = true

/-- Among devices with different numbers, of which one may lead, there is a best one. -/
theorem exists_best {s : Site} (hid : s.Distinct) {i : Nat} {c : Address × ElectionConfig}
    (hc : s.roster[i]? = some c) (hup : s.isUp i = true) (hmay : 0 < c.2.priority) :
    ∃ place address config, s.Best place address config := by
  classical
  let weight : Nat → Nat := fun j => ((s.roster[j]?).map (·.2.rank.weight)).getD 0
  let places := (Finset.range s.roster.length).filter fun j =>
    s.isUp j = true ∧ ∃ c, s.roster[j]? = some c ∧ 0 < c.2.priority
  have hmem : ∀ (j : Nat) c, s.roster[j]? = some c → s.isUp j = true → 0 < c.2.priority →
      j ∈ places := by
    intro j c hj hupj hmayj
    have hlt : j < s.roster.length := (List.getElem?_eq_some_iff.mp hj).1
    exact Finset.mem_filter.mpr ⟨Finset.mem_range.mpr hlt, hupj, c, hj, hmayj⟩
  obtain ⟨w, hw, hmax⟩ := Finset.exists_max_image places weight ⟨i, hmem i c hc hup hmay⟩
  obtain ⟨_, hwup, ⟨address, config⟩, hwc, hwmay⟩ := Finset.mem_filter.mp hw
  refine ⟨w, address, config, hwc, hwup, hwmay, ?_⟩
  intro j c hj hupj hmayj hne
  have hle := hmax j (hmem j c hj hupj hmayj)
  simp only [weight, hj, hwc, Option.map_some, Option.getD_some] at hle
  -- another place has another device, so the weights differ
  have hdev : config.device ≠ c.2.device := fun heq => hne (hid.place_eq hj hwc heq.symm)
  rcases Rank.outranks_or_outranks (a := config.rank) (b := c.2.rank) hdev with h | h
  · exact h
  · have := Rank.outranks_iff.mp h
    omega

/-- What is known of devices that are up. -/
def Fresh (s : Site) (device : DeviceId) (p : Peer) : Prop :=
  ∃ place, s.Lists place device p ∧ s.isUp place = true

theorem Distinct.onePriority_fresh {s : Site} (h : s.Distinct) : Agent.OnePriority s.Fresh :=
  h.onePriority fun _ _ hp => hp.imp fun _ hplace => hplace.1

variable {s : Site} {w : Nat} {address : Address} {config : ElectionConfig}

/-- The best device outranks every other that is known and may lead. -/
theorem Best.outranks_fresh (hbest : s.Best w address config) {device : DeviceId} {p : Peer}
    (hp : s.Fresh device p) (hpos : 0 < p.priority) (hne : device ≠ config.device) :
    config.rank.outranks (p.rank device) = true := by
  obtain ⟨j, ⟨c, hc, rfl, hprio⟩, hup⟩ := hp
  have hj : j ≠ w := by
    rintro rfl
    obtain ⟨_, rfl⟩ := Prod.mk.inj (Option.some.inj (hc.symm.trans hbest.listed))
    exact hne rfl
  have := hbest.best j _ hc hup (hprio ▸ hpos) hj
  unfold Peer.rank
  rw [← hprio]
  exact this

/-- The best device does not follow. -/
theorem Best.not_follower (hbest : s.Best w address config) {a : Agent} (ha : a.RankInv s.Fresh)
    (hconfig : a.config = config) (leader : DeviceId) (address' : Address) :
    a.role ≠ .follower leader address' := by
  intro hrole
  obtain ⟨hne, p, hp, hpos, _, hout, _⟩ := ha.follows leader address' hrole
  rw [hconfig] at hne hout
  have := hbest.outranks_fresh (ha.vouched _ p hp) hpos hne
  exact Rank.not_outranks_both this hout

/-- Another device that knows the best one follows it or is a candidate. -/
theorem Best.role_of_known (hbest : s.Best w address config) {i : Nat}
    {a : Agent} {address' : Address} (ha : a.RankInv s.Fresh)
    (hlisted : s.roster[i]? = some (address', a.config)) (hup : s.isUp i = true) (hne : i ≠ w)
    {seen : Instant}
    (hknown : a.observed.find? config.device = some ⟨config.priority, address, seen⟩) :
    a.role = .candidate ∨ a.role = .follower config.device address := by
  cases hrole : a.role with
  | candidate => exact Or.inl rfl
  | leader =>
    -- a leader would outrank the best device
    obtain ⟨hmay, hall⟩ := ha.leads hrole
    have hbeats := hbest.best i _ hlisted hup hmay hne
    have hbeaten : a.config.rank.outranks config.rank = true := hall _ _ hknown
    exact absurd hbeaten (Rank.not_outranks_both hbeats)
  | follower leader address'' =>
    refine Or.inr ?_
    obtain ⟨_, p, hp, hpos, haddr, _, hmax⟩ := ha.follows leader address'' hrole
    have heq : leader = config.device := by
      by_contra hdev
      have hbeats := hbest.outranks_fresh (ha.vouched _ p hp) hpos hdev
      have hnot : config.rank.outranks (p.rank leader) = false := hmax _ _ hknown
      rw [hbeats] at hnot
      cases hnot
    rw [heq, hknown] at hp
    cases hp
    rw [heq, ← haddr]

end Site

namespace Fleet

/-! ## Settling -/

/-- Those that are up know only devices that are up, and none of them has become a candidate
since `start`. -/
structure Settling (start : Instant) (f : Fleet) : Prop where
  fresh : f.Each fun i a => f.isUp i = true → a.RankInv f.site.Fresh
  since : f.Each fun i a => f.isUp i = true → a.role = .candidate → a.candidateSince ≤ start

/-- What a broadcast makes of the agent at a place: it is as before, and has heard of the
sender, unless it is the sender. -/
structure Hearing (start : Instant) (f : Fleet) (sender : Nat) (source : Member) (i : Nat)
    (a : Agent) : Prop where
  fresh : a.RankInv f.site.Fresh
  since : a.role = .candidate → a.candidateSince ≤ start
  sends : i = sender → ∀ leader address, a.role ≠ .follower leader address
  heard : i ≠ sender → a.observed.find? source.agent.config.device =
    some ⟨source.agent.config.priority, source.address, f.now⟩

theorem Hearing.receive {start : Instant} {f : Fleet} (h : f.Settling start) (hid : f.Distinct)
    {sender i : Nat} {source m : Member} (hs : f.members[sender]? = some source)
    (hsup : f.isUp sender = true) (hm : f.members[i]? = some m) (hne : i ≠ sender)
    (hup : f.isUp i = true) :
    f.Hearing start sender source i
      (m.agent.receive source.address (source.agent.beacon false f.now) f.now).1 where
  fresh := (h.fresh i m hm hup).receive (distinct_site.mpr hid).onePriority_fresh
    fun _ => ⟨sender, lists_of_member hs f.now, hsup⟩
  since := by
    intro hrole
    obtain ⟨hbefore, heq⟩ := Agent.candidate_of_receive_keep (Agent.isDrop_beacon _ _ _) hrole
    rw [heq]
    exact h.since i m hm hup hbefore
  sends := fun heq => absurd heq hne
  heard := by
    intro _
    have hdev := device_ne hid hs hm (Ne.symm hne)
    rw [Agent.observed_receive_of_keep hdev (Agent.isDrop_beacon _ _ _), Agent.find?_observe]
    exact if_pos rfl

/-- Who has heard of the sender does not follow a device that steps down for it. -/
theorem Hearing.not_follower {start : Instant} {f : Fleet} (hid : f.Distinct) {sender k : Nat}
    {source n : Member} (hn : f.members[k]? = some n)
    (hyield : f.Yields sender (source.agent.beacon false f.now) k n.agent) {i : Nat} {a : Agent}
    (h : f.Hearing start sender source i a) (address : Address) :
    a.role ≠ .follower n.agent.config.device address := by
  intro hrole
  by_cases hi : i = sender
  · exact h.sends hi _ _ hrole
  · obtain ⟨_, p, hp, _, _, _, hmax⟩ := h.fresh.follows _ _ hrole
    have hnot : source.agent.config.rank.outranks (p.rank n.agent.config.device) = false :=
      hmax _ _ (h.heard hi)
    -- what is known of the device that steps down is true of it
    have hsame : p.priority = n.agent.config.priority :=
      (distinct_site.mpr hid).onePriority_fresh _ p ⟨n.agent.config.priority, n.address, f.now⟩
        (h.fresh.vouched _ p hp) ⟨k, lists_of_member hn f.now, hyield.up⟩
    have hbeats : source.agent.config.rank.outranks n.agent.config.rank = true := hyield.outranked
    unfold Peer.rank at hnot
    rw [hsame] at hnot
    exact absurd hbeats (Bool.eq_false_iff.mp hnot)

theorem Hearing.forget {start : Instant} {f : Fleet} (hid : f.Distinct) {sender k : Nat}
    {source n : Member} (hs : f.members[sender]? = some source) (hn : f.members[k]? = some n)
    (hyield : f.Yields sender (source.agent.beacon false f.now) k n.agent) {i : Nat} {a : Agent}
    (h : f.Hearing start sender source i a) :
    f.Hearing start sender source i (a.forget n.agent.config.device f.now) := by
  have hdev := device_ne hid hs hn (Ne.symm hyield.other)
  have hrole : (a.forget n.agent.config.device f.now).role = a.role ∧
      (a.forget n.agent.config.device f.now).candidateSince = a.candidateSince := by
    rcases Agent.forget_cases a n.agent.config.device f.now with ⟨address, hf, _⟩ | ⟨_, heq⟩
    · exact absurd hf (h.not_follower hid hn hyield address)
    · rw [heq]
      exact ⟨rfl, rfl⟩
  refine ⟨h.fresh.forget _ _, ?_, ?_, ?_⟩
  · rw [hrole.1, hrole.2]
    exact h.since
  · rw [hrole.1]
    exact h.sends
  · intro hi
    rw [Agent.observed_forget, SortedMap.find?_erase_of_ne _ hdev]
    exact h.heard hi

/-- An announcement keeps a fleet settling. -/
theorem Settling.announce {start : Instant} {f : Fleet} (h : f.Settling start) (hid : f.Distinct)
    (place : Nat) : (f.announce place).Settling start := by
  rcases announce_cases f place with ⟨source, hs, hsup, hsend, heq⟩ | ⟨_, heq⟩
  · have hall : (f.announce place).Each fun i a =>
        f.isUp i = true → f.Hearing start place source i a := by
      rw [heq]
      refine Each.broadcast hs _ ?_ ?_ ?_
      · intro i m hm hne hup _
        exact .receive h hid hs hsup hm hne hup
      · rintro i m hm (rfl | hdown) hup
        · obtain rfl := Option.some.inj (hs.symm.trans hm)
          refine ⟨h.fresh i _ hm hup, h.since i _ hm hup, ?_, fun hne => absurd rfl hne⟩
          rintro - leader address hrole
          rcases hsend with hsend | ⟨hsend, _⟩ <;> rw [hrole] at hsend <;> cases hsend
        · rw [hup] at hdown
          cases hdown
      · intro k n hn hyield i m a _ _ _ _ _ ha hup
        exact (ha hup).forget hid hs hn hyield
    have hsite := site_announce f place
    refine ⟨?_, ?_⟩
    · intro i m hm hup
      rw [isUp_of_site_eq hsite] at hup
      rw [hsite]
      exact (hall i m hm hup).fresh
    · intro i m hm hup
      rw [isUp_of_site_eq hsite] at hup
      exact (hall i m hm hup).since
  · rw [heq]
    exact h

/-- All others have just heard of the best device, if it is among the places given. -/
def BestTold (f : Fleet) (places : List Nat) : Prop :=
  ∀ w address config, f.site.Best w address config → w ∈ places → f.Told w address config

/-- In a settling fleet the best device announces itself when it is its turn, and word of it
stays. -/
theorem BestTold.announce {start : Instant} {f : Fleet} (hset : f.Settling start)
    (hid : f.Distinct) {done : List Nat} (h : f.BestTold done) (place : Nat) :
    (f.announce place).BestTold (done ++ [place]) := by
  intro w address config hbest hw
  have hsite := site_announce f place
  rw [hsite] at hbest
  have hup : f.isUp w = true := hbest.up
  obtain ⟨m, hm, heq⟩ := member_of_roster hbest.listed
  obtain ⟨rfl, rfl⟩ := Prod.mk.inj heq
  rcases List.mem_append.mp hw with hw | hw
  · refine (h w _ _ hbest hw).announce hid hm place ?_
    rintro j n hn rfl
    obtain ⟨m', hm', _, hconfig⟩ := member_of_site_eq hsite hn
    obtain rfl := Option.some.inj (hm'.symm.trans hm)
    have hfresh :=
      (hset.announce hid place).fresh j n hn ((isUp_of_site_eq hsite j).trans hup)
    rw [hsite] at hfresh
    exact hbest.not_follower hfresh hconfig
  · obtain rfl := List.mem_singleton.mp hw
    refine told_announce hid hm hup ?_
    have hfresh := hset.fresh w m hm hup
    cases hrole : m.agent.role with
    | leader => exact Or.inl hrole
    | candidate => exact Or.inr ⟨hrole, hbest.may⟩
    | follower leader address => exact absurd hrole (hbest.not_follower hfresh rfl _ _)

/-- After the beacons of a round everybody has heard of the best device. -/
theorem Settling.beacons {start : Instant} {f : Fleet} (h : f.Settling start) (hid : f.Distinct) :
    f.beacons.Settling start ∧ ∀ w address config, f.beacons.site.Best w address config →
      f.beacons.Told w address config := by
  have hnil : f.BestTold [] := fun _ _ _ _ hw => absurd hw List.not_mem_nil
  obtain ⟨hsite, hset, htold⟩ := beacons_induction (f := f)
    (P := fun done g => g.Settling start ∧ g.BestTold done) ⟨h, hnil⟩
    fun done place g hsite hg =>
      have hid' := distinct_of_site_eq hsite hid
      ⟨hg.1.announce hid' place, hg.2.announce hg.1 hid' place⟩
  refine ⟨hset, ?_⟩
  intro w address config hbest
  refine htold w address config hbest (List.mem_range.mpr ?_)
  obtain ⟨m, hm, _⟩ := member_of_roster hbest.listed
  rw [← length_of_site_eq hsite]
  exact (List.getElem?_eq_some_iff.mp hm).1

/-! ## Settled fleets -/

/-- The device at a place is up and may lead. -/
def Contender (f : Fleet) (i : Nat) (m : Member) : Prop :=
  f.members[i]? = some m ∧ f.isUp i = true ∧ 0 < m.agent.config.priority

/-- The contender that outranks all others. -/
def Best (f : Fleet) (i : Nat) (m : Member) : Prop :=
  f.Contender i m ∧ ∀ j n, f.Contender j n → j ≠ i →
    m.agent.config.rank.outranks n.agent.config.rank = true

/-- If there are contenders, the best one leads and all others that are up follow it, where it
is; otherwise all that are up are candidates. -/
structure Settled (f : Fleet) : Prop where
  exists_best : (∃ i m, f.Contender i m) → ∃ i m, f.Best i m
  led : ∀ i m, f.Best i m → m.agent.role = .leader ∧
    ∀ j n, f.members[j]? = some n → f.isUp j = true → j ≠ i →
      n.agent.role = .follower m.agent.config.device m.address
  unled : (∀ i m, ¬ f.Contender i m) →
    ∀ j n, f.members[j]? = some n → f.isUp j = true → n.agent.role = .candidate

theorem site_best_iff {f : Fleet} {i : Nat} {m : Member} (hm : f.members[i]? = some m) :
    f.site.Best i m.address m.agent.config ↔ f.Best i m := by
  constructor
  · intro h
    refine ⟨⟨hm, h.up, h.may⟩, ?_⟩
    rintro j n ⟨hn, hup, hmay⟩ hne
    exact h.best j _ (roster_of_member hn) hup hmay hne
  · rintro ⟨⟨_, hup, hmay⟩, hall⟩
    refine ⟨roster_of_member hm, hup, hmay, ?_⟩
    intro j c hc hupj hmayj hne
    obtain ⟨n, hn, rfl⟩ := member_of_roster hc
    exact hall j n ⟨hn, hupj, hmayj⟩ hne

/-- Where nobody may lead, those that know only devices that are up are candidates. -/
theorem Settling.unled {start : Instant} {f : Fleet} (h : f.Settling start)
    (hno : ∀ i m, ¬ f.Contender i m) {j : Nat} {n : Member} (hn : f.members[j]? = some n)
    (hup : f.isUp j = true) : n.agent.role = .candidate := by
  have hfresh := h.fresh j n hn hup
  cases hrole : n.agent.role with
  | candidate => rfl
  | leader => exact absurd ⟨hn, hup, (hfresh.leads hrole).1⟩ (hno j n)
  | follower leader address =>
    obtain ⟨_, p, hp, hpos, _⟩ := hfresh.follows _ _ hrole
    obtain ⟨k, ⟨c, hc, _, hprio⟩, hupk⟩ := hfresh.vouched _ p hp
    obtain ⟨m, hm, heq⟩ := member_of_roster hc
    obtain ⟨-, rfl⟩ := Prod.mk.inj heq
    exact absurd ⟨hm, hupk, hprio ▸ hpos⟩ (hno k m)

/-! ## The ticks of a settling fleet -/

section Tick

variable {start : Instant} {f : Fleet} (hset : f.Settling start) (hid : f.Distinct)
  (htimeout : f.Each fun _ a => 0 < a.config.leaderTimeout)
  (htold : ∀ w address config, f.site.Best w address config → f.Told w address config)

include htimeout htold in
/-- Others still know the best device when they have forgotten the silent. -/
theorem known_after_age {w i : Nat} {address : Address} {config : ElectionConfig} {m : Member}
    (hbest : f.site.Best w address config) (hm : f.members[i]? = some m) (hne : i ≠ w)
    (hup : f.isUp i = true) :
    (m.agent.age f.now).observed.find? config.device =
      some ⟨config.priority, address, f.now⟩ :=
  Agent.find?_age_of_now (htold w address config hbest i m hm hne hup) (htimeout i m hm)

include hset hid htimeout htold in
/-- Nobody loses its leader at the ticks. -/
theorem leader_after_age {i : Nat} {m : Member} (hm : f.members[i]? = some m)
    (hup : f.isUp i = true) {leader : DeviceId} {address : Address}
    (hrole : m.agent.role = .follower leader address) :
    (m.agent.age f.now).observed.find? leader ≠ none := by
  have hfresh := hset.fresh i m hm hup
  obtain ⟨_, p, hp, hpos, _⟩ := hfresh.follows leader address hrole
  obtain ⟨j, ⟨c, hc, _, hprio⟩, hj⟩ := hfresh.vouched _ p hp
  obtain ⟨w, address', config, hbest⟩ :=
    Site.exists_best (distinct_site.mpr hid) hc hj (hprio ▸ hpos)
  have hne : i ≠ w := by
    rintro rfl
    have hlisted := hbest.listed.symm.trans (roster_of_member hm)
    obtain ⟨_, rfl⟩ := Prod.mk.inj (Option.some.inj hlisted)
    exact hbest.not_follower hfresh rfl _ _ hrole
  have hknown := known_after_age htimeout htold hbest hm hne hup
  rcases hbest.role_of_known hfresh (roster_of_member hm) hup hne (Agent.find?_age.mp hknown).1
    with h | h
  · rw [hrole] at h
    cases h
  · rw [hrole] at h
    rw [(Role.follower.inj h).1, hknown]
    simp

include hset hid htimeout htold in
/-- Candidates after the ticks were so before, and wait for their window or for a device that
may lead. -/
theorem waiting_of_candidate {i : Nat} {m : Member} (hm : f.members[i]? = some m)
    (hup : f.isUp i = true) (hrole : (m.agent.tick f.now).role = .candidate) :
    (m.agent.tick f.now).candidateSince ≤ start ∧
      (f.now.since start < m.agent.config.window ∨ m.agent.config.priority = 0 ∧
        ∀ device p, (m.agent.age f.now).observed.find? device = some p → p.priority = 0) := by
  rcases Agent.candidate_of_tick hrole with ⟨leader, address, hfollow, hgone⟩ | ⟨hcand, heq, hwait⟩
  · exact absurd hgone (leader_after_age hset hid htimeout htold hm hup hfollow)
  · have hsince := hset.since i m hm hup hcand
    refine ⟨heq ▸ hsince, hwait.imp_left fun h => ?_⟩
    unfold Instant.since at *
    exact Nat.lt_of_le_of_lt (Nat.sub_le_sub_left hsince _) h

include hset hid htimeout htold in
theorem Settling.tick : f.tick.Settling start := by
  have hsite := site_tick f
  refine ⟨?_, ?_⟩
  · intro i m hm hup
    obtain ⟨n, hn, heq, hup'⟩ := tick_member_up hm hup
    rw [hsite, heq]
    exact ((hset.fresh i n hn hup').tick f.now).mono fun _ _ hp => hp.1
  · intro i m hm hup hrole
    obtain ⟨n, hn, heq, hup'⟩ := tick_member_up hm hup
    rw [heq] at hrole ⊢
    exact (waiting_of_candidate hset hid htimeout htold hn hup' hrole).1

include hset hid htimeout htold in
/-- A candidate whose window is over becomes something else, if it may lead or knows a device
that may. -/
theorem not_candidate_tick {window : Span} (hwindow : f.Each fun _ a => a.config.window ≤ window)
    (hover : start + window ≤ f.now) {i : Nat} {m : Member} (hm : f.members[i]? = some m)
    (hup : f.isUp i = true)
    (hsome : 0 < m.agent.config.priority ∨
      ∃ device p, (m.agent.age f.now).observed.find? device = some p ∧ 0 < p.priority) :
    (m.agent.tick f.now).role ≠ .candidate := by
  intro hrole
  rcases (waiting_of_candidate hset hid htimeout htold hm hup hrole).2 with hwait | ⟨hzero, hnone⟩
  · have hle : m.agent.config.window ≤ f.now.since start :=
      Nat.le_trans (hwindow i m hm) (Nat.le_sub_of_add_le' hover)
    exact absurd hwait (Nat.not_lt.mpr hle)
  · rcases hsome with hmay | ⟨device, p, hp, hpos⟩
    · rw [hzero] at hmay
      exact absurd hmay (by decide)
    · rw [hnone device p hp] at hpos
      exact absurd hpos (by decide)

include hset hid htimeout htold in
/-- Once the longest window is over, the ticks leave the fleet settled. -/
theorem settled_tick {window : Span} (hwindow : f.Each fun _ a => a.config.window ≤ window)
    (hover : start + window ≤ f.now) : f.tick.Settled := by
  have hafter := hset.tick hid htimeout htold
  have hsite := site_tick f
  refine ⟨?_, ?_, fun hno _ _ hn hup => hafter.unled hno hn hup⟩
  · rintro ⟨i, m, hm, hup, hmay⟩
    have hid' := distinct_site.mpr (distinct_of_site_eq hsite hid)
    obtain ⟨w, address, config, hbest⟩ := Site.exists_best hid' (roster_of_member hm) hup hmay
    obtain ⟨n, hn, heq⟩ := member_of_roster hbest.listed
    obtain ⟨rfl, rfl⟩ := Prod.mk.inj heq
    exact ⟨w, n, (site_best_iff hn).mp hbest⟩
  · intro w m' hbest'
    have hm' := hbest'.1.1
    have hbest := (site_best_iff hm').mpr hbest'
    have hrank : ∀ i n, f.tick.members[i]? = some n → f.tick.isUp i = true →
        n.agent.RankInv f.tick.site.Fresh := hafter.fresh
    refine ⟨?_, ?_⟩
    · -- the best device does not follow and does not wait
      obtain ⟨m, hm, heq, hup⟩ := tick_member_up hm' hbest.up
      cases hrole : m'.agent.role with
      | leader => rfl
      | follower leader address =>
        exact absurd hrole (hbest.not_follower (hrank w m' hm' hbest.up) rfl _ _)
      | candidate =>
        rw [heq] at hrole
        have hmay : 0 < m.agent.config.priority := by
          have := hbest.may
          rw [heq, Agent.config_tick] at this
          exact this
        exact absurd hrole
          (not_candidate_tick hset hid htimeout htold hwindow hover hm hup (Or.inl hmay))
    · intro j n' hn' hup' hne
      obtain ⟨n, hn, heq, hup⟩ := tick_member_up hn' hup'
      rw [hsite] at hbest
      have hknown := known_after_age htimeout htold hbest hn hne hup
      have hseen : n'.agent.observed.find? m'.agent.config.device =
          some ⟨m'.agent.config.priority, m'.address, f.now⟩ := by
        rw [heq, Agent.observed_tick]
        exact hknown
      have hfresh := hrank j n' hn' hup'
      have hlisted := roster_of_member hn'
      rw [hsite] at hfresh hlisted
      rcases hbest.role_of_known hfresh hlisted hup hne hseen with hrole | hrole
      · rw [heq] at hrole
        exact absurd hrole (not_candidate_tick hset hid htimeout htold hwindow hover hn hup
          (Or.inr ⟨_, _, hknown, hbest.may⟩))
      · exact hrole

end Tick

/-- The beacons of a round leave a settling fleet ready for its ticks. -/
theorem Settling.before_tick {start : Instant} {f : Fleet} (h : f.Settling start)
    (hid : f.Distinct) (step : Span) :
    (f.pass step).beacons.Settling start ∧ (f.pass step).beacons.Distinct ∧
      ∀ w address config, (f.pass step).beacons.site.Best w address config →
        (f.pass step).beacons.Told w address config := by
  have hpass : (f.pass step).Settling start := ⟨h.fresh, h.since⟩
  obtain ⟨hset, htold⟩ := hpass.beacons hid
  exact ⟨hset, distinct_of_site_eq (site_beacons _) hid, htold⟩

/-- A round keeps a fleet settling. -/
theorem Settling.round {start : Instant} {f : Fleet} (h : f.Settling start) (hid : f.Distinct)
    (htimeout : f.Each fun _ a => 0 < a.config.leaderTimeout) (step : Span) :
    (f.round step).Settling start := by
  obtain ⟨hset, hid', htold⟩ := h.before_tick hid step
  have hroster := roster_beacons f step
  exact hset.tick hid' (Each.of_roster_eq hroster (0 < ·.leaderTimeout) htimeout) htold

/-- When the longest window is over, a round leaves a settling fleet settled. -/
theorem Settling.settled_round {start : Instant} {f : Fleet} (h : f.Settling start)
    (hid : f.Distinct) (htimeout : f.Each fun _ a => 0 < a.config.leaderTimeout)
    {window : Span} (hwindow : f.Each fun _ a => a.config.window ≤ window) {step : Span}
    (hover : start + window ≤ (f.round step).now) : (f.round step).Settled := by
  obtain ⟨hset, hid', htold⟩ := h.before_tick hid step
  have hroster := roster_beacons f step
  have hnow : (f.round step).now = (f.pass step).beacons.now :=
    congrArg Site.now (site_tick (f.pass step).beacons)
  rw [round_eq]
  exact settled_tick hset hid' (Each.of_roster_eq hroster (0 < ·.leaderTimeout) htimeout) htold
    (Each.of_roster_eq hroster (·.window ≤ window) hwindow) (hnow ▸ hover)

/-! ## From any reachable fleet -/

/-- A sound fleet in which nothing has been heard from the devices that are down for the
longest timeout is settling after a round. -/
theorem Sound.settling_round {quiet : Instant} {f : Fleet} (h : f.Sound quiet) (hid : f.Distinct)
    {timeout : Span} (htimeout : f.Each fun _ a => a.config.leaderTimeout ≤ timeout) {step : Span}
    (hover : quiet + timeout ≤ (f.round step).now) :
    (f.round step).Settling (f.round step).now := by
  have hbefore := (h.pass step).beacons hid
  have hafter := h.round hid step
  have hroster := roster_round f step
  have hconfig := Each.of_roster_eq hroster (·.leaderTimeout ≤ timeout) htimeout
  refine ⟨?_, fun i m hm _ _ => hafter.since i m hm⟩
  intro i m hm hup
  have hranked := rankInv_tick hbefore.ranked hm hup
  refine hranked.mono ?_
  rintro device p ⟨⟨hseen, place, hlists, hheard⟩, hintime⟩
  have hsite : (f.round step).site = (f.pass step).beacons.site := site_tick _
  rw [hsite]
  refine ⟨place, hlists, hheard.resolve_right ?_⟩
  -- what was heard of a device that is down has been forgotten by now
  intro hold
  have hle := hconfig i m hm
  have hnow : (f.round step).now = (f.pass step).beacons.now := congrArg Site.now hsite
  rw [hnow] at hover
  unfold Instant.since at hintime
  exact absurd (Nat.lt_of_lt_of_le hintime hle)
    (Nat.not_lt.mpr (Nat.le_sub_of_add_le'
      (Nat.le_trans (Nat.add_le_add_right hold timeout) hover)))

/-- A fleet after a number of rounds. -/
def rounds (f : Fleet) (steps : Nat → Span) : Nat → Fleet
  | 0 => f
  | n + 1 => (f.rounds steps n).round (steps n)

/-- The longest time that a device of the fleet may be silent. -/
def longestTimeout (f : Fleet) : Span :=
  (f.members.map (·.agent.config.leaderTimeout)).foldr max 0

/-- The longest time that a candidate of the fleet listens. -/
def longestWindow (f : Fleet) : Span := (f.members.map (·.agent.config.window)).foldr max 0

theorem le_foldr_max {l : List Nat} {n : Nat} (h : n ∈ l) : n ≤ l.foldr max 0 := by
  induction l with
  | nil => cases h
  | cons k l ih =>
    rw [List.foldr_cons]
    rcases List.mem_cons.mp h with rfl | h
    · exact Nat.le_max_left _ _
    · exact Nat.le_trans (ih h) (Nat.le_max_right _ _)

theorem roster_rounds (f : Fleet) (steps : Nat → Span) (n : Nat) :
    (f.rounds steps n).site.roster = f.site.roster := by
  induction n with
  | zero => rfl
  | succ n ih => exact (roster_round _ (steps n)).trans ih

theorem distinct_rounds {f : Fleet} (hid : f.Distinct) (steps : Nat → Span) (n : Nat) :
    (f.rounds steps n).Distinct := by
  rw [← distinct_site] at *
  unfold Site.Distinct at *
  rw [roster_rounds]
  exact hid

theorem now_rounds_mono (f : Fleet) (steps : Nat → Span) {k n : Nat} (h : k ≤ n) :
    (f.rounds steps k).now ≤ (f.rounds steps n).now := by
  induction h with
  | refl => exact Nat.le_refl _
  | step _ ih => exact Nat.le_trans ih (now_le_step _ (.round (steps _)))

theorem Sound.rounds {quiet : Instant} {f : Fleet} (h : f.Sound quiet) (hid : f.Distinct)
    (steps : Nat → Span) (n : Nat) : (f.rounds steps n).Sound quiet := by
  induction n with
  | zero => exact h
  | succ n ih => exact ih.round (distinct_rounds hid steps n) (steps n)

/-- A fleet that is settling after some rounds still is after more. -/
theorem settling_rounds {start : Instant} {f : Fleet} (hid : f.Distinct)
    (htimeout : f.Each fun _ a => 0 < a.config.leaderTimeout) (steps : Nat → Span) {k n : Nat}
    (hk : (f.rounds steps k).Settling start) (h : k ≤ n) : (f.rounds steps n).Settling start := by
  induction h with
  | refl => exact hk
  | @step n _ ih =>
    refine ih.round (distinct_rounds hid steps n) ?_ (steps n)
    exact Each.of_roster_eq (roster_rounds f steps n) (0 < ·.leaderTimeout) htimeout

end Fleet

/-- A fleet with distinct devices, in whatever state rounds, renouncing, joining and going down
have left it, settles when only rounds happen: if the longest timeout is over in one round, and
the longest window after it in another, then the fleet is settled after the latter and after
every later one. -/
theorem fleet_stabilises {f : Fleet} (hf : f.Reachable) (hid : f.Distinct)
    (htimeout : ∀ m ∈ f.members, 0 < m.agent.config.leaderTimeout) (steps : Nat → Span)
    (r₁ r₂ r : Nat) (h₁₂ : r₁ < r₂) (h₂ : r₂ ≤ r)
    (hquiet : f.now + f.longestTimeout ≤ (f.rounds steps (r₁ + 1)).now)
    (hwindow : (f.rounds steps (r₁ + 1)).now + f.longestWindow ≤ (f.rounds steps (r₂ + 1)).now) :
    (f.rounds steps (r + 1)).Settled := by
  have hsound : f.Sound f.now := hf.sound hid
  have hpos : f.Each fun _ a => 0 < a.config.leaderTimeout :=
    fun i m hm => htimeout m (List.mem_of_getElem? hm)
  have hlongest : f.Each fun _ a => a.config.leaderTimeout ≤ f.longestTimeout := fun i m hm =>
    Fleet.le_foldr_max (List.mem_map_of_mem (List.mem_of_getElem? hm))
  have hwidest : f.Each fun _ a => a.config.window ≤ f.longestWindow := fun i m hm =>
    Fleet.le_foldr_max (List.mem_map_of_mem (List.mem_of_getElem? hm))
  -- the first of the two rounds makes the fleet settling
  have hfirst : (f.rounds steps (r₁ + 1)).Settling (f.rounds steps (r₁ + 1)).now :=
    (hsound.rounds hid steps r₁).settling_round (Fleet.distinct_rounds hid steps r₁)
      (Fleet.Each.of_roster_eq (Fleet.roster_rounds f steps r₁) (·.leaderTimeout ≤ _) hlongest)
      hquiet
  have hlater := Fleet.settling_rounds hid hpos steps hfirst (n := r) (by omega)
  have htime : (f.rounds steps (r₂ + 1)).now ≤ (f.rounds steps (r + 1)).now :=
    Fleet.now_rounds_mono f steps (by omega)
  have hroster := Fleet.roster_rounds f steps r
  exact hlater.settled_round (Fleet.distinct_rounds hid steps r)
    (Fleet.Each.of_roster_eq hroster (0 < ·.leaderTimeout) hpos)
    (Fleet.Each.of_roster_eq hroster (·.window ≤ f.longestWindow) hwidest)
    (Nat.le_trans hwindow htime)

/-- Three devices, of which the best has led the others and is down now. A fourth that may
not lead has just joined. -/
def bereaved : Fleet :=
  let device (id : UInt64) (priority : UInt16) (window : Span) : Address × ElectionConfig :=
    (.ofOctets 10 0 0 id.toNat, { device := id, priority, window, leaderTimeout := 40 })
  let newcomer := device 4 0 20
  (Fleet.start [device 1 9 30, device 3 5 0, device 2 5 30]).run
    [.round 30, .round 10, .setDown [0], .join newcomer.1 newcomer.2]

/-- Two devices follow the lost one. Eight rounds of 10 µs later the better one of them leads. -/
theorem bereaved_fleet_stabilises :
    bereaved.Distinct ∧ bereaved.members.map (·.agent.isFollower) = [false, true, true, false] ∧
      (bereaved.rounds (fun _ => 10) 8).LeadsAt 2 ∧
      (bereaved.rounds (fun _ => 10) 8).Settled :=
  ⟨by decide, by decide, by decide,
    fleet_stabilises ⟨_, _, rfl⟩ (by decide) (by decide) (fun _ => 10) 3 6 7 (by decide)
      (by decide) (by decide) (by decide)⟩

end LinkFabric
