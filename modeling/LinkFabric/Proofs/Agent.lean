import LinkFabric.Election.Fleet
import LinkFabric.Proofs.Rank

/-!
# What an election agent can do

An agent acts on beacons and on ticks. Each of the two has a relation here that lists
all it can do, with the condition under which it does it. Properties of agents are
proved by going through these cases, and never from the text of the functions.

Main results:

* `Agent.receive_reaction`: a beacon is ignored, forgotten, noted, followed or yielded to.
* `Agent.tick_turn`: what a tick does, by the role before it.
* `Agent.forget_cases`: a forgotten device is erased, and let go if it was the leader.
-/

namespace LinkFabric

/-- The rank that a beacon announces. -/
def Beacon.rank (b : Beacon) : Rank := ⟨b.priority, b.device⟩

/-- What an agent is driven by: beacons that arrive, and times to look after the election. -/
inductive AgentEvent where
  | receive (source : Address) (b : Beacon) (now : Instant)
  | tick (now : Instant)

namespace Agent

/-- What an agent makes of an event. -/
def step (a : Agent) : AgentEvent → Agent
  | .receive source b now => (a.receive source b now).1
  | .tick now => a.tick now

/-- What an agent makes of events, in their order. -/
def run (a : Agent) (events : List AgentEvent) : Agent := events.foldl step a

/-! ## Beacons -/

@[simp] theorem device_beacon (a : Agent) (drop : Bool) (now : Instant) :
    (a.beacon drop now).device = a.config.device := rfl

@[simp] theorem priority_beacon (a : Agent) (drop : Bool) (now : Instant) :
    (a.beacon drop now).priority = a.config.priority := rfl

@[simp] theorem isDrop_beacon (a : Agent) (drop : Bool) (now : Instant) :
    (a.beacon drop now).isDrop = drop := Beacon.isDrop_new _ _ _ _

/-- The agent as a follower of a beacon's sender. -/
def follow (a : Agent) (source : Address) (b : Beacon) (now : Instant) : Agent :=
  { a.observe source b now with role := .follower b.device source }

/-- A beacon that leaves the role of an agent as it is. -/
def Unmoved (a : Agent) (b : Beacon) : Prop :=
  b.priority = 0 ∨
    match a.role with
    | .candidate => True
    | .leader => b.rank.outranks a.config.rank = false
    | .follower leader _ => leader ≠ b.device ∧ b.rank.outranks (a.leaderRank leader) = false

/-- What a beacon can make of an agent, with the agent's answer. -/
inductive Reaction (a : Agent) (source : Address) (b : Beacon) (now : Instant) :
    Agent × Option Beacon → Prop
  | own (hown : b.device = a.config.device) : Reaction a source b now (a, none)
  | forgot (hne : b.device ≠ a.config.device) (hdrop : b.isDrop = true) :
      Reaction a source b now (a.forget b.device now, none)
  | noted (hne : b.device ≠ a.config.device) (hkeep : b.isDrop = false) (hrole : a.Unmoved b) :
      Reaction a source b now (a.observe source b now, none)
  | followed (leader : DeviceId) (address : Address) (hne : b.device ≠ a.config.device)
      (hkeep : b.isDrop = false) (hpos : 0 < b.priority)
      (hrole : a.role = .follower leader address)
      (hbetter : leader = b.device ∨ b.rank.outranks (a.leaderRank leader) = true) :
      Reaction a source b now (a.follow source b now, none)
  | yielded (hne : b.device ≠ a.config.device) (hkeep : b.isDrop = false) (hpos : 0 < b.priority)
      (hrole : a.role = .leader) (hbetter : b.rank.outranks a.config.rank = true) :
      Reaction a source b now (a.follow source b now, some (a.beacon true now))

theorem leaderRank_of_find? {a : Agent} {leader : DeviceId} {p : Peer}
    (h : a.observed.find? leader = some p) : a.leaderRank leader = p.rank leader := by
  unfold leaderRank
  rw [h]

theorem leaderRank_observe_of_ne (a : Agent) (source : Address) (b : Beacon) (now : Instant)
    {leader : DeviceId} (h : leader ≠ b.device) :
    (a.observe source b now).leaderRank leader = a.leaderRank leader := by
  unfold leaderRank observe
  rw [SortedMap.find?_insert_of_ne _ _ (Ne.symm h)]

theorem receive_reaction {a : Agent} {source : Address} {b : Beacon} {now : Instant}
    {r : Agent × Option Beacon} (h : a.receive source b now = r) : Reaction a source b now r := by
  subst h
  unfold receive
  split_ifs with hown hdrop hzero
  · exact .own hown
  · exact .forgot hown hdrop
  · exact .noted hown (by simpa using hdrop) (Or.inl hzero)
  · have hkeep : b.isDrop = false := by simpa using hdrop
    have hpos : 0 < b.priority := UInt16.pos_iff_ne_zero.mpr hzero
    unfold respond
    simp only
    split
    · rename_i leader address hrole
      have hrole : a.role = .follower leader address := hrole
      split_ifs with hbetter
      · refine .followed leader address hown hkeep hpos hrole ?_
        by_cases hl : leader = b.device
        · exact Or.inl hl
        · rw [leaderRank_observe_of_ne a source b now hl] at hbetter
          exact hbetter
      · rw [not_or] at hbetter
        rw [leaderRank_observe_of_ne a source b now hbetter.1] at hbetter
        refine .noted hown hkeep (Or.inr ?_)
        rw [hrole]
        exact ⟨hbetter.1, Bool.eq_false_iff.mpr hbetter.2⟩
    · rename_i hrole
      have hrole : a.role = .leader := hrole
      split_ifs with hbetter
      · exact .yielded hown hkeep hpos hrole hbetter
      · refine .noted hown hkeep (Or.inr ?_)
        rw [hrole]
        exact Bool.eq_false_iff.mpr hbetter
    · rename_i hrole
      have hrole : a.role = .candidate := hrole
      refine .noted hown hkeep (Or.inr ?_)
      rw [hrole]
      trivial

/-- A forgotten device is erased. A follower of it becomes a candidate. -/
theorem forget_cases (a : Agent) (device : DeviceId) (now : Instant) :
    (∃ address, a.role = .follower device address ∧
      a.forget device now =
        { a with observed := a.observed.erase device, role := .candidate, candidateSince := now }) ∨
    ((∀ address, a.role ≠ .follower device address) ∧
      a.forget device now = { a with observed := a.observed.erase device }) := by
  unfold forget
  simp only
  split
  · rename_i leader address hrole
    split_ifs with hl
    · subst hl
      exact Or.inl ⟨address, hrole, rfl⟩
    · refine Or.inr ⟨?_, rfl⟩
      intro address' h
      rw [hrole] at h
      exact hl (Role.follower.inj h).1
  · rename_i hrole
    exact Or.inr ⟨fun address h => hrole device address h, rfl⟩

@[simp] theorem observed_forget (a : Agent) (device : DeviceId) (now : Instant) :
    (a.forget device now).observed = a.observed.erase device := by
  rcases forget_cases a device now with ⟨_, _, h⟩ | ⟨_, h⟩ <;> rw [h]

@[simp] theorem config_forget (a : Agent) (device : DeviceId) (now : Instant) :
    (a.forget device now).config = a.config := by
  rcases forget_cases a device now with ⟨_, _, h⟩ | ⟨_, h⟩ <;> rw [h]

@[simp] theorem config_receive (a : Agent) (source : Address) (b : Beacon) (now : Instant) :
    (a.receive source b now).1.config = a.config := by
  generalize hr : a.receive source b now = r
  cases receive_reaction hr with
  | own | noted | followed | yielded => rfl
  | forgot => exact config_forget a b.device now

/-- An agent ignores its own beacons. -/
theorem receive_of_own {a : Agent} {b : Beacon} (hown : b.device = a.config.device)
    (source : Address) (now : Instant) : (a.receive source b now).1 = a := by
  unfold receive
  rw [if_pos hown]

/-- A beacon that takes its sender out of the election makes others forget it. -/
theorem receive_of_drop {a : Agent} {b : Beacon} (hne : b.device ≠ a.config.device)
    (hdrop : b.isDrop = true) (source : Address) (now : Instant) :
    (a.receive source b now).1 = a.forget b.device now := by
  unfold receive
  rw [if_neg hne, if_pos hdrop]

theorem receive_renouncing (a sender : Agent) (source : Address) (now : Instant)
    (hne : sender.config.device ≠ a.config.device) :
    (a.receive source (sender.beacon true now) now).1 = a.forget sender.config.device now :=
  receive_of_drop hne (isDrop_beacon sender true now) source now

/-- Another device's announcement is always observed. -/
theorem observed_receive_of_keep {a : Agent} {b : Beacon} (hne : b.device ≠ a.config.device)
    (hkeep : b.isDrop = false) (source : Address) (now : Instant) :
    (a.receive source b now).1.observed = (a.observe source b now).observed := by
  generalize hr : a.receive source b now = r
  cases receive_reaction hr with
  | own hown => exact absurd hown hne
  | forgot _ hdrop =>
    rw [hkeep] at hdrop
    cases hdrop
  | noted | followed | yielded => rfl

/-- A leader follows a device that announces a higher rank. -/
theorem role_receive_of_outranked {a : Agent} {b : Beacon} (hne : b.device ≠ a.config.device)
    (hkeep : b.isDrop = false) (hpos : 0 < b.priority) (hrole : a.role = .leader)
    (hbetter : b.rank.outranks a.config.rank = true) (source : Address) (now : Instant) :
    (a.receive source b now).1.role = .follower b.device source := by
  generalize hr : a.receive source b now = r
  cases receive_reaction hr with
  | own hown => exact absurd hown hne
  | forgot _ hdrop =>
    rw [hkeep] at hdrop
    cases hdrop
  | noted _ _ hstay =>
    rcases hstay with hzero | hstay
    · rw [hzero] at hpos
      exact absurd hpos (by decide)
    · rw [hrole] at hstay
      exact absurd hbetter (Bool.eq_false_iff.mp hstay)
  | followed | yielded => rfl

/-- An announcement makes nobody a candidate. -/
theorem candidate_of_receive_keep {a : Agent} {b : Beacon} (hkeep : b.isDrop = false)
    {source : Address} {now : Instant} (h : (a.receive source b now).1.role = .candidate) :
    a.role = .candidate ∧ (a.receive source b now).1.candidateSince = a.candidateSince := by
  generalize hr : a.receive source b now = r at h
  cases receive_reaction hr with
  | own | noted => exact ⟨h, rfl⟩
  | forgot _ hdrop =>
    rw [hkeep] at hdrop
    cases hdrop
  | followed | yielded => cases h

/-- An agent that sends beacons: it leads, or asks to. -/
def Contends (a : Agent) : Prop :=
  a.role = .leader ∨ a.role = .candidate ∧ 0 < a.config.priority

theorem contends_iff (a : Agent) : (a.isCampaigning || a.isLeader) = true ↔ a.Contends := by
  unfold Contends isCampaigning isLeader ElectionConfig.eligible
  simp only [Bool.or_eq_true, Bool.and_eq_true, beq_iff_eq, decide_eq_true_eq]
  exact or_comm

/-! ## Ticks -/

/-- Ageing keeps exactly the devices that have not been silent for too long. -/
theorem find?_age {a : Agent} {now : Instant} {device : DeviceId} {p : Peer} :
    (a.age now).observed.find? device = some p ↔
      a.observed.find? device = some p ∧ now.since p.lastSeen < a.config.leaderTimeout := by
  unfold age
  rw [SortedMap.find?_filter, Option.filter_eq_some_iff, decide_eq_true_eq]

/-- Who has just been heard of is not forgotten. -/
theorem find?_age_of_now {a : Agent} {now : Instant} {device : DeviceId} {priority : UInt16}
    {address : Address} (h : a.observed.find? device = some ⟨priority, address, now⟩)
    (htimeout : 0 < a.config.leaderTimeout) :
    (a.age now).observed.find? device = some ⟨priority, address, now⟩ := by
  refine find?_age.mpr ⟨h, ?_⟩
  unfold Instant.since
  rw [Nat.sub_self]
  exact htimeout

/-- What a tick can make of an agent. -/
inductive Turn (a : Agent) (now : Instant) : Agent → Prop
  | led (hrole : a.role = .leader) : Turn a now (a.age now)
  | followed (leader : DeviceId) (address : Address) (p : Peer)
      (hrole : a.role = .follower leader address)
      (hseen : (a.age now).observed.find? leader = some p) : Turn a now (a.age now)
  | released (leader : DeviceId) (address : Address) (hrole : a.role = .follower leader address)
      (hgone : (a.age now).observed.find? leader = none) :
      Turn a now ((a.age now).becomeCandidate now)
  | waited (hrole : a.role = .candidate) (hwait : now.since a.candidateSince < a.config.window) :
      Turn a now (a.age now)
  | promoted (hrole : a.role = .candidate) (hwindow : a.config.window ≤ now.since a.candidateSince)
      (hmay : 0 < a.config.priority)
      (hbest : ∀ device p, (a.age now).observed.find? device = some p →
        a.config.rank.outranks (p.rank device) = true) :
      Turn a now { a.age now with role := .leader }
  | chose (device : DeviceId) (p : Peer) (hrole : a.role = .candidate)
      (hwindow : a.config.window ≤ now.since a.candidateSince)
      (hseen : (a.age now).observed.find? device = some p) (hpos : 0 < p.priority)
      (hbest : ∀ device' p', (a.age now).observed.find? device' = some p' →
        (p'.rank device').outranks (p.rank device) = false)
      (hlost : 0 < a.config.priority → a.config.rank.outranks (p.rank device) = false) :
      Turn a now { a.age now with role := .follower device p.address }
  | undecided (hrole : a.role = .candidate)
      (hwindow : a.config.window ≤ now.since a.candidateSince) (hmay : a.config.priority = 0)
      (hnone : ∀ device p, (a.age now).observed.find? device = some p → p.priority = 0) :
      Turn a now (a.age now)

/-- A decision promotes the agent, follows the best device seen, or finds nobody. -/
theorem decideAmong_cases (a : Agent) :
    (0 < a.config.priority ∧
      (∀ device p, a.observed.find? device = some p →
        a.config.rank.outranks (p.rank device) = true) ∧
      a.decideAmong a.observed.entries = { a with role := .leader }) ∨
    (∃ device p, a.observed.find? device = some p ∧ 0 < p.priority ∧
      (∀ device' p', a.observed.find? device' = some p' →
        (p'.rank device').outranks (p.rank device) = false) ∧
      (0 < a.config.priority → a.config.rank.outranks (p.rank device) = false) ∧
      a.decideAmong a.observed.entries = { a with role := .follower device p.address }) ∨
    (a.config.priority = 0 ∧ (∀ device p, a.observed.find? device = some p → p.priority = 0) ∧
      a.decideAmong a.observed.entries = a) := by
  unfold decideAmong wins ElectionConfig.eligible
  cases hbest : Election.bestPeer a.observed.entries with
  | none =>
    have hzero : ∀ device p, a.observed.find? device = some p → p.priority = 0 := by
      intro device p hp
      exact Election.bestPeer_eq_none_iff.mp hbest _ ((SortedMap.mem_entries_iff _).mpr hp)
    by_cases hmay : 0 < a.config.priority
    · refine Or.inl ⟨hmay, ?_, by simp [hmay]⟩
      intro device p hp
      exact Rank.outranks_of_priority hmay (hzero device p hp)
    · have hmay : a.config.priority = 0 := UInt16.le_zero_iff.mp (UInt16.not_lt.mp hmay)
      exact Or.inr (Or.inr ⟨hmay, hzero, by simp [hmay]⟩)
  | some best =>
    obtain ⟨device, p⟩ := best
    obtain ⟨hmem, hpos, hmax⟩ := Election.bestPeer_spec hbest
    have hseen := (SortedMap.mem_entries_iff _).mp hmem
    have hmax : ∀ device' p', a.observed.find? device' = some p' →
        (p'.rank device').outranks (p.rank device) = false := by
      intro device' p' hp'
      exact hmax _ ((SortedMap.mem_entries_iff _).mpr hp')
    by_cases hwin : 0 < a.config.priority ∧ a.config.rank.outranks (p.rank device) = true
    · refine Or.inl ⟨hwin.1, ?_, by simp [hwin]⟩
      intro device' p' hp'
      have := Rank.outranks_iff.mp hwin.2
      have := Rank.not_outranks_iff.mp (hmax device' p' hp')
      exact Rank.outranks_iff.mpr (by omega)
    · refine Or.inr (Or.inl ⟨device, p, hseen, hpos, hmax, ?_, ?_⟩)
      · intro hmay
        exact Bool.eq_false_iff.mpr fun hout => hwin ⟨hmay, hout⟩
      · rw [not_and] at hwin
        simp only [Bool.and_eq_true, decide_eq_true_eq]
        rw [if_neg fun h => hwin h.1 h.2]

theorem tick_turn {a a' : Agent} {now : Instant} (h : a.tick now = a') : Turn a now a' := by
  subst h
  unfold tick
  simp only
  split
  · rename_i leader address hrole
    have hrole : a.role = .follower leader address := hrole
    unfold SortedMap.contains
    split_ifs with hseen
    · obtain ⟨p, hp⟩ := Option.isSome_iff_exists.mp hseen
      exact .followed leader address p hrole hp
    · exact .released leader address hrole (by simpa using hseen)
  · rename_i hrole
    have hrole : a.role = .candidate := hrole
    split_ifs with hwindow
    · rcases decideAmong_cases (a.age now) with
        ⟨hmay, hbest, heq⟩ | ⟨device, p, hseen, hpos, hbest, hlost, heq⟩ | ⟨hmay, hnone, heq⟩
      · rw [heq]
        exact .promoted hrole hwindow hmay hbest
      · rw [heq]
        exact .chose device p hrole hwindow hseen hpos hbest hlost
      · rw [heq]
        exact .undecided hrole hwindow hmay hnone
    · exact .waited hrole (Nat.lt_of_not_le hwindow)
  · rename_i hrole
    exact .led hrole

/-- A tick changes what is observed only by ageing it. -/
@[simp] theorem observed_tick (a : Agent) (now : Instant) :
    (a.tick now).observed = (a.age now).observed := by
  generalize ht : a.tick now = a'
  cases tick_turn ht <;> rfl

@[simp] theorem config_tick (a : Agent) (now : Instant) : (a.tick now).config = a.config := by
  generalize ht : a.tick now = a'
  cases tick_turn ht <;> rfl

/-- A candidate after a tick has just lost its leader, or was one before and has to wait, or
cannot lead and knows nobody who may. -/
theorem candidate_of_tick {a : Agent} {now : Instant} (h : (a.tick now).role = .candidate) :
    (∃ leader address, a.role = .follower leader address ∧
      (a.age now).observed.find? leader = none) ∨
    (a.role = .candidate ∧ (a.tick now).candidateSince = a.candidateSince ∧
      (now.since a.candidateSince < a.config.window ∨
        a.config.priority = 0 ∧
          ∀ device p, (a.age now).observed.find? device = some p → p.priority = 0)) := by
  generalize ht : a.tick now = a' at h
  cases tick_turn ht with
  | led hrole | followed _ _ _ hrole =>
    have h : a.role = .candidate := h
    rw [hrole] at h
    cases h
  | released leader address hrole hgone => exact Or.inl ⟨leader, address, hrole, hgone⟩
  | waited hrole hwait => exact Or.inr ⟨hrole, rfl, Or.inl hwait⟩
  | promoted | chose => cases h
  | undecided hrole hwindow hmay hnone => exact Or.inr ⟨hrole, rfl, Or.inr ⟨hmay, hnone⟩⟩

end Agent

end LinkFabric
