import LinkFabric.Proofs.Agent
import Mathlib.Logic.Relation

/-!
# Role and rank of an election agent

However beacons are lost, repeated or reordered, and whatever the clock does, the role
of an agent agrees with the ranks that it observes, as long as every device announces
one priority. A leader outranks all it observes; a follower follows the best device that
it observes, which outranks it.

Main results:

* `Agent.RankInv.receive`, `Agent.RankInv.tick`: one step keeps the invariant.
* `rank_agrees_with_role`: it holds after every run, and so nobody ever follows in a circle.
-/

namespace LinkFabric

namespace Agent

/-! ## The invariant -/

/-- The role of an agent agrees with the ranks that it observes. A leader may lead and outranks
all of them; a follower follows another device that it observes at the address of its role, that
may lead and outranks it, and that nobody observed outranks. -/
structure WellRanked (a : Agent) : Prop where
  self_unseen : a.observed.find? a.config.device = none
  leads : a.role = .leader → 0 < a.config.priority ∧
    ∀ device p, a.observed.find? device = some p → a.config.rank.outranks (p.rank device) = true
  follows : ∀ leader address, a.role = .follower leader address →
    leader ≠ a.config.device ∧ ∃ p, a.observed.find? leader = some p ∧ 0 < p.priority ∧
      p.address = address ∧ (p.rank leader).outranks a.config.rank = true ∧
      ∀ device q, a.observed.find? device = some q →
        (q.rank device).outranks (p.rank leader) = false

/-- A well-ranked agent that observes only what `vouched` allows. -/
structure RankInv (vouched : DeviceId → Peer → Prop) (a : Agent) : Prop extends WellRanked a where
  vouched : ∀ device p, a.observed.find? device = some p → vouched device p

/-- What is vouched for gives each device one priority. -/
def OnePriority (vouched : DeviceId → Peer → Prop) : Prop :=
  ∀ device p q, vouched device p → vouched device q → p.priority = q.priority

variable {vouched : DeviceId → Peer → Prop} {a : Agent}

theorem RankInv.start (config : ElectionConfig) (now : Instant) :
    RankInv vouched (Agent.start config now) where
  self_unseen := rfl
  leads := by intro h; cases h
  follows := by intro leader address h; cases h
  vouched := by intro device p h; cases h

theorem RankInv.mono {vouched' : DeviceId → Peer → Prop} (h : RankInv vouched a)
    (himp : ∀ device p, vouched device p → vouched' device p) : RankInv vouched' a :=
  ⟨h.toWellRanked, fun device p hp => himp device p (h.vouched device p hp)⟩

/-- A well-ranked agent with fewer observations, among them its leader, is well-ranked. -/
theorem WellRanked.shrink (h : WellRanked a) (observed : SortedMap DeviceId Peer)
    (hsub : ∀ device p, observed.find? device = some p → a.observed.find? device = some p)
    (hlead : ∀ leader address, a.role = .follower leader address →
      observed.find? leader = a.observed.find? leader) :
    WellRanked { a with observed } where
  self_unseen := by
    cases hself : observed.find? a.config.device with
    | none => rfl
    | some p => rw [← hsub _ _ hself, h.self_unseen]
  leads := by
    intro hrole
    obtain ⟨hmay, hall⟩ := h.leads hrole
    exact ⟨hmay, fun device p hp => hall device p (hsub device p hp)⟩
  follows := by
    intro leader address hrole
    obtain ⟨hne, p, hp, hpos, haddr, hout, hbest⟩ := h.follows leader address hrole
    refine ⟨hne, p, ?_, hpos, haddr, hout, fun device q hq => hbest device q (hsub device q hq)⟩
    exact (hlead leader address hrole).trans hp

/-- A candidate is well-ranked if it does not observe itself. -/
theorem WellRanked.of_candidate (hrole : a.role = .candidate)
    (hself : a.observed.find? a.config.device = none) : WellRanked a where
  self_unseen := hself
  leads := by intro h; rw [hrole] at h; cases h
  follows := by intro leader address h; rw [hrole] at h; cases h

/-! ## Beacons -/

theorem find?_observe (a : Agent) (source : Address) (b : Beacon) (now : Instant)
    (device : DeviceId) :
    (a.observe source b now).observed.find? device =
      if device = b.device then some ⟨b.priority, source, now⟩ else a.observed.find? device := by
  unfold observe
  split_ifs with h
  · rw [h, SortedMap.find?_insert_self]
  · rw [SortedMap.find?_insert_of_ne _ _ (Ne.symm h)]

theorem RankInv.forget (h : RankInv vouched a) (device : DeviceId) (now : Instant) :
    RankInv vouched (a.forget device now) := by
  have hsub : ∀ d p, (a.observed.erase device).find? d = some p → a.observed.find? d = some p :=
    fun _ _ => SortedMap.find?_of_find?_erase
  refine ⟨?_, fun d p hp => h.vouched d p (hsub d p (by simpa using hp))⟩
  rcases forget_cases a device now with ⟨address, hrole, heq⟩ | ⟨hrole, heq⟩
  · rw [heq]
    refine .of_candidate rfl ?_
    rw [SortedMap.find?_erase, h.self_unseen, ite_self]
  · rw [heq]
    refine h.toWellRanked.shrink _ hsub ?_
    -- the device that goes is not the one followed
    intro leader address hfollow
    refine SortedMap.find?_erase_of_ne _ ?_
    rintro rfl
    exact hrole address hfollow

/-- Following a sender that outranks the agent and all it observes. -/
theorem RankInv.follow (h : RankInv vouched a) {source : Address} {b : Beacon} {now : Instant}
    (hnew : vouched b.device ⟨b.priority, source, now⟩) (hne : b.device ≠ a.config.device)
    (hpos : 0 < b.priority) (hout : b.rank.outranks a.config.rank = true)
    (hbest : ∀ device q, device ≠ b.device → a.observed.find? device = some q →
      (q.rank device).weight ≤ b.rank.weight) :
    RankInv vouched (a.follow source b now) := by
  have hfind : ∀ device, (a.follow source b now).observed.find? device =
      if device = b.device then some ⟨b.priority, source, now⟩ else a.observed.find? device :=
    find?_observe a source b now
  refine ⟨⟨?_, ?_, ?_⟩, ?_⟩
  · rw [hfind]
    exact (if_neg (Ne.symm hne)).trans h.self_unseen
  · intro hrole
    cases hrole
  · intro leader address hrole
    obtain ⟨rfl, rfl⟩ := Role.follower.inj hrole
    refine ⟨hne, ⟨b.priority, source, now⟩, by rw [hfind, if_pos rfl], hpos, rfl, hout, ?_⟩
    intro device q hq
    rw [hfind] at hq
    refine Rank.not_outranks_iff.mpr ?_
    split_ifs at hq with hd
    · subst hd
      cases hq
      exact Nat.le_refl _
    · exact hbest device q hd hq
  · intro device p hp
    rw [hfind] at hp
    split_ifs at hp with hd
    · subst hd
      cases hp
      exact hnew
    · exact h.vouched device p hp

/-- Noting a sender that gives no reason to change the role. -/
theorem RankInv.note (h : RankInv vouched a) (hone : OnePriority vouched) {source : Address}
    {b : Beacon} {now : Instant} (hnew : vouched b.device ⟨b.priority, source, now⟩)
    (hne : b.device ≠ a.config.device) (hrole : a.Unmoved b) :
    RankInv vouched (a.observe source b now) := by
  have hfind := find?_observe a source b now
  refine ⟨⟨?_, ?_, ?_⟩, ?_⟩
  · rw [hfind]
    exact (if_neg (Ne.symm hne)).trans h.self_unseen
  · intro hlead
    have hlead : a.role = .leader := hlead
    obtain ⟨hmay, hall⟩ := h.leads hlead
    refine ⟨hmay, ?_⟩
    intro device p hp
    rw [hfind] at hp
    split_ifs at hp with hd
    · subst hd
      cases hp
      rcases hrole with hzero | hrole
      · exact Rank.outranks_of_priority hmay hzero
      · rw [hlead] at hrole
        exact (Rank.outranks_or_outranks (Ne.symm hne)).resolve_right
          fun hb => absurd hb (Bool.eq_false_iff.mp hrole)
    · exact hall device p hp
  · intro leader address hfollow
    have hfollow : a.role = .follower leader address := hfollow
    obtain ⟨hself, p, hp, hpos, haddr, hout, hbest⟩ := h.follows leader address hfollow
    -- the beacon is not the leader's: that one would be followed, or has another priority
    have hother : leader ≠ b.device ∧ b.rank.outranks (p.rank leader) = false := by
      rcases hrole with hzero | hrole
      · refine ⟨?_, Rank.outranks_asymm (Rank.outranks_of_priority hpos hzero)⟩
        rintro rfl
        have hsame : p.priority = 0 :=
          (hone b.device p ⟨b.priority, source, now⟩ (h.vouched _ p hp) hnew).trans hzero
        rw [hsame] at hpos
        exact absurd hpos (by decide)
      · rw [hfollow] at hrole
        exact ⟨hrole.1, leaderRank_of_find? hp ▸ hrole.2⟩
    refine ⟨hself, p, by rw [hfind, if_neg hother.1, hp], hpos, haddr, hout, ?_⟩
    intro device q hq
    rw [hfind] at hq
    split_ifs at hq with hd
    · subst hd
      cases hq
      exact hother.2
    · exact hbest device q hq
  · intro device p hp
    rw [hfind] at hp
    split_ifs at hp with hd
    · subst hd
      cases hp
      exact hnew
    · exact h.vouched device p hp

/-- A beacon that is vouched for keeps the invariant. -/
theorem RankInv.receive (h : RankInv vouched a) (hone : OnePriority vouched) {source : Address}
    {b : Beacon} {now : Instant}
    (hnew : b.isDrop = false → vouched b.device ⟨b.priority, source, now⟩) :
    RankInv vouched (a.receive source b now).1 := by
  generalize hr : a.receive source b now = r
  cases receive_reaction hr with
  | own => exact h
  | forgot hne hdrop => exact h.forget b.device now
  | noted hne hkeep hrole => exact h.note hone (hnew hkeep) hne hrole
  | followed leader address hne hkeep hpos hrole hbetter =>
    obtain ⟨_, p, hp, _, _, hout, hbest⟩ := h.follows leader address hrole
    -- the sender ranks at least as high as the leader so far
    have hle : (p.rank leader).weight ≤ b.rank.weight := by
      rcases hbetter with rfl | hbetter
      · have hsame := hone b.device p ⟨b.priority, source, now⟩ (h.vouched _ p hp) (hnew hkeep)
        have hrank : p.rank b.device = b.rank := congrArg (Rank.mk · b.device) hsame
        exact Nat.le_of_eq (congrArg Rank.weight hrank)
      · rw [leaderRank_of_find? hp] at hbetter
        exact Nat.le_of_lt (Rank.outranks_iff.mp hbetter)
    refine h.follow (hnew hkeep) hne hpos ?_ ?_
    · exact Rank.outranks_iff.mpr (Nat.lt_of_lt_of_le (Rank.outranks_iff.mp hout) hle)
    · intro device q _ hq
      exact Nat.le_trans (Rank.not_outranks_iff.mp (hbest device q hq)) hle
  | yielded hne hkeep hpos hrole hbetter =>
    obtain ⟨_, hall⟩ := h.leads hrole
    refine h.follow (hnew hkeep) hne hpos hbetter ?_
    intro device q _ hq
    have hq := Rank.outranks_iff.mp (hall device q hq)
    exact Nat.le_of_lt (Nat.lt_trans hq (Rank.outranks_iff.mp hbetter))

/-! ## Ticks -/

/-- A tick keeps the invariant, and leaves only devices that were heard of in time. -/
theorem RankInv.tick (h : RankInv vouched a) (now : Instant) :
    RankInv (fun device p => vouched device p ∧ now.since p.lastSeen < a.config.leaderTimeout)
      (a.tick now) := by
  have hsub : ∀ device p, (a.age now).observed.find? device = some p →
      a.observed.find? device = some p := fun _ _ hp => (find?_age.mp hp).1
  have hself : (a.age now).observed.find? a.config.device = none := by
    cases hp : (a.age now).observed.find? a.config.device with
    | none => rfl
    | some p => rw [← hsub _ _ hp, h.self_unseen]
  refine ⟨?_, ?_⟩
  · generalize ht : a.tick now = a'
    cases tick_turn ht with
    | led hrole =>
      refine h.toWellRanked.shrink _ hsub ?_
      intro leader address hfollow
      rw [hrole] at hfollow
      cases hfollow
    | followed leader address p hrole hseen =>
      refine h.toWellRanked.shrink _ hsub ?_
      intro leader' address' hfollow
      rw [hrole] at hfollow
      obtain ⟨rfl, -⟩ := Role.follower.inj hfollow
      exact hseen.trans (hsub _ _ hseen).symm
    | released leader address hrole hgone => exact .of_candidate rfl hself
    | waited hrole hwait => exact .of_candidate hrole hself
    | undecided hrole hwindow hmay hnone => exact .of_candidate hrole hself
    | promoted hrole hwindow hmay hbest =>
      refine ⟨hself, fun _ => ⟨hmay, hbest⟩, ?_⟩
      intro leader address hfollow
      cases hfollow
    | chose device p hrole hwindow hseen hpos hbest hlost =>
      refine ⟨hself, ?_, ?_⟩
      · intro hlead
        cases hlead
      intro leader address hfollow
      obtain ⟨rfl, rfl⟩ := Role.follower.inj hfollow
      have hne : device ≠ a.config.device := by
        rintro rfl
        rw [hself] at hseen
        cases hseen
      refine ⟨hne, p, hseen, hpos, rfl, ?_, hbest⟩
      by_cases hmay : 0 < a.config.priority
      · exact (Rank.outranks_or_outranks hne).resolve_right
          fun hb => absurd hb (Bool.eq_false_iff.mp (hlost hmay))
      · exact Rank.outranks_of_priority hpos (UInt16.le_zero_iff.mp (UInt16.not_lt.mp hmay))
  · intro device p hp
    rw [observed_tick] at hp
    exact ⟨h.vouched device p (hsub device p hp), (find?_age.mp hp).2⟩

/-! ## Runs -/

/-- The beacons that arrive in a history. -/
def Heard (events : List AgentEvent) (b : Beacon) : Prop :=
  ∃ source now, AgentEvent.receive source b now ∈ events

end Agent

/-- Beacons that announce a device, and do not take it out of the election, agree on its
priority. -/
def Consistent (air : Beacon → Prop) : Prop :=
  ∀ b b', air b → air b' → b.isDrop = false → b'.isDrop = false → b.device = b'.device →
    b.priority = b'.priority

/-- The peers that beacons announce. -/
def Announced (air : Beacon → Prop) (device : DeviceId) (p : Peer) : Prop :=
  ∃ b, air b ∧ b.isDrop = false ∧ b.device = device ∧ b.priority = p.priority

/-- Beacons are consistent if each device has a priority that they all give it. -/
theorem Consistent.of_priority {air : Beacon → Prop} (priority : DeviceId → UInt16)
    (h : ∀ b, air b → b.priority = priority b.device) : Consistent air := by
  intro b b' hb hb' _ _ hdev
  rw [h b hb, h b' hb', hdev]

theorem Consistent.onePriority {air : Beacon → Prop} (h : Consistent air) :
    Agent.OnePriority (Announced air) := by
  rintro device p q ⟨b, hb, hkeep, hdev, hp⟩ ⟨b', hb', hkeep', hdev', hq⟩
  rw [← hp, ← hq]
  exact h b b' hb hb' hkeep hkeep' (hdev.trans hdev'.symm)

namespace Agent

theorem RankInv.step {air : Beacon → Prop} {a : Agent} (h : RankInv (Announced air) a)
    (hair : Consistent air) (e : AgentEvent) (he : ∀ b, Heard [e] b → air b) :
    RankInv (Announced air) (a.step e) := by
  cases e with
  | receive source b now =>
    refine h.receive hair.onePriority ?_
    intro hkeep
    exact ⟨b, he b ⟨source, now, List.mem_singleton_self _⟩, hkeep, rfl, rfl⟩
  | tick now => exact (h.tick now).mono fun _ _ hp => hp.1

theorem RankInv.run {air : Beacon → Prop} (hair : Consistent air) (events : List AgentEvent)
    (he : ∀ b, Heard events b → air b) {a : Agent} (h : RankInv (Announced air) a) :
    RankInv (Announced air) (a.run events) := by
  induction events generalizing a with
  | nil => exact h
  | cons e events ih =>
    have hhead : ∀ b, Heard [e] b → air b := by
      rintro b ⟨source, now, hmem⟩
      exact he b ⟨source, now, List.mem_cons.mpr (Or.inl (List.mem_singleton.mp hmem))⟩
    have htail : ∀ b, Heard events b → air b := by
      rintro b ⟨source, now, hmem⟩
      exact he b ⟨source, now, List.mem_cons_of_mem _ hmem⟩
    exact ih htail (h.step hair e hhead)

@[simp] theorem config_run (a : Agent) (events : List AgentEvent) :
    (a.run events).config = a.config := by
  induction events generalizing a with
  | nil => rfl
  | cons e events ih =>
    refine (ih (a.step e)).trans ?_
    cases e with
    | receive source b now => exact config_receive a source b now
    | tick now => exact config_tick a now

end Agent

/-! ## Fleets on any network -/

/-- A device with all that has happened to it. -/
structure Participant where
  config : ElectionConfig
  started : Instant
  history : List AgentEvent

/-- The agent of a participant. -/
def Participant.agent (p : Participant) : Agent :=
  (Agent.start p.config p.started).run p.history

section Network

variable {ι : Type} (fleet : ι → Participant)

/-- What participants hear and what they announce themselves. The network between them may
do anything: a history is any list of events. -/
def OnAir (b : Beacon) : Prop :=
  ∃ i, Agent.Heard (fleet i).history b ∨ ∃ now, b = (fleet i).agent.beacon false now

/-- One participant follows another. -/
def Follows (i j : ι) : Prop :=
  ∃ address, (fleet i).agent.role = .follower (fleet j).config.device address

variable {fleet}

@[simp] theorem Participant.config_agent (p : Participant) : p.agent.config = p.config :=
  Agent.config_run _ _

theorem outranks_of_follows (hair : Consistent (OnAir fleet)) {i j : ι} (h : Follows fleet i j) :
    (fleet j).config.rank.outranks (fleet i).config.rank = true := by
  obtain ⟨address, hrole⟩ := h
  have hinv : Agent.RankInv (Announced (OnAir fleet)) (fleet i).agent :=
    Agent.RankInv.run hair _ (fun b hb => ⟨i, Or.inl hb⟩) (.start _ _)
  obtain ⟨_, p, hp, _, _, hout, _⟩ := hinv.follows _ _ hrole
  -- what `i` knows of `j` is what `j` announces
  have hsame : p.priority = (fleet j).config.priority := by
    obtain ⟨b, hb, hkeep, hdev, hprio⟩ := hinv.vouched _ p hp
    have hown : OnAir fleet ((fleet j).agent.beacon false 0) := ⟨j, Or.inr ⟨0, rfl⟩⟩
    have hagree := hair b _ hb hown hkeep (Agent.isDrop_beacon _ _ _)
    rw [Agent.device_beacon, Agent.priority_beacon, Participant.config_agent] at hagree
    exact hprio.symm.trans (hagree hdev)
  unfold Peer.rank at hout
  rw [hsame, Participant.config_agent] at hout
  exact hout

theorem outranks_of_transGen_follows (hair : Consistent (OnAir fleet)) {i j : ι}
    (h : Relation.TransGen (Follows fleet) i j) :
    (fleet j).config.rank.outranks (fleet i).config.rank = true := by
  induction h with
  | single h => exact outranks_of_follows hair h
  | tail _ h ih => exact Rank.outranks_trans (outranks_of_follows hair h) ih

end Network

/-- Whatever the network does, an agent that hears one priority from each device is
well-ranked after every run. So in a fleet whose devices announce one priority each, to
follow is to follow a device of higher rank, and nobody follows in a circle. -/
theorem rank_agrees_with_role :
    (∀ (config : ElectionConfig) (started : Instant) (events : List AgentEvent),
      Consistent (Agent.Heard events) →
        ((Agent.start config started).run events).WellRanked) ∧
    ∀ (ι : Type) (fleet : ι → Participant), Consistent (OnAir fleet) →
      (∀ i j, Follows fleet i j →
        (fleet j).config.rank.outranks (fleet i).config.rank = true) ∧
      ∀ i, ¬ Relation.TransGen (Follows fleet) i i := by
  refine ⟨?_, ?_⟩
  · intro config started events hair
    exact (Agent.RankInv.run hair events (fun _ hb => hb) (.start config started)).toWellRanked
  · intro ι fleet hair
    refine ⟨fun i j h => outranks_of_follows hair h, ?_⟩
    intro i hcycle
    have hself := outranks_of_transGen_follows hair hcycle
    exact Rank.not_outranks_both hself hself

/-- A leader and a device that hears it over a bad network: one beacon comes twice, the later
one with the earlier time, a renouncing one comes from somewhere else, and the clock goes back
at the end. -/
def pair : Bool → Participant
  | true => ⟨{ device := 1, priority := 9, window := 30 }, 0, [.tick 30]⟩
  | false =>
    let leader : Address := .ofOctets 10 0 0 1
    let announcing := Beacon.new 1 9 0 false
    let renouncing := Beacon.new 1 9 0 true
    ⟨{ device := 2, priority := 5, window := 30 }, 0,
      [.receive leader announcing 20, .receive leader announcing 10, .tick 40,
        .receive (.ofOctets 10 0 0 3) renouncing 41, .receive leader announcing 50, .tick 80,
        .tick 5]⟩

theorem priority_of_onAir_pair (b : Beacon) (h : OnAir pair b) :
    b.priority = if b.device = 1 then 9 else 5 := by
  obtain ⟨i, ⟨source, now, hmem⟩ | ⟨now, rfl⟩⟩ := h
  · cases i with
    | true => simp [pair] at hmem
    | false =>
      simp only [pair, List.mem_cons, AgentEvent.receive.injEq, List.not_mem_nil, reduceCtorEq,
        or_false, false_or] at hmem
      rcases hmem with ⟨_, rfl, _⟩ | ⟨_, rfl, _⟩ | ⟨_, rfl, _⟩ | ⟨_, rfl, _⟩ <;> rfl
  · rw [Agent.priority_beacon, Agent.device_beacon, Participant.config_agent]
    cases i <;> rfl

theorem pair_rank_agrees_with_role :
    (pair false).agent.role = .follower 1 (.ofOctets 10 0 0 1) ∧ (pair false).agent.WellRanked ∧
      (pair true).config.rank.outranks (pair false).config.rank = true ∧
      ¬ Relation.TransGen (Follows pair) false false := by
  have hair : Consistent (OnAir pair) :=
    .of_priority (fun device => if device = 1 then 9 else 5) priority_of_onAir_pair
  have hheard : Consistent (Agent.Heard (pair false).history) := fun b b' hb hb' =>
    hair b b' ⟨false, Or.inl hb⟩ ⟨false, Or.inl hb'⟩
  have hrole : (pair false).agent.role = .follower 1 (.ofOctets 10 0 0 1) := by decide
  obtain ⟨hhigher, hacyclic⟩ := rank_agrees_with_role.2 Bool pair hair
  exact ⟨hrole, rank_agrees_with_role.1 _ _ _ hheard, hhigher false true ⟨_, hrole⟩,
    hacyclic false⟩

end LinkFabric
