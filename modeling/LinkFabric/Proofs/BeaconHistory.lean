import LinkFabric.Proofs.Lease
import LinkFabric.Proofs.RankInvariant

/-!
# An agent knows what it heard

An agent keeps a map of the devices that it heard of and a role that it may have had for
long. Both say nothing that the history of its beacons and ticks does not say: a device is in
the map as long as its last beacon is recent, and a candidate is promoted, and a follower let
go, by what the last beacons were and when.

Main results:

* `Agent.find?_run_iff`: what is observed after a run, in terms of the last beacons.
* `Agent.candidateSince_iff`: since when a candidate has been one without interruption.
* `Agent.step_eq_leader_iff`, `Agent.step_eq_candidate_iff`: which events promote an agent, and
  which make a follower a candidate.
* `Agent.roles_follow_beacons`: what is observed and how roles change, by the history alone.
-/

namespace LinkFabric

namespace AgentEvent

/-- When an event happens. -/
def time : AgentEvent → Instant
  | .receive _ _ now => now
  | .tick now => now

/-- Whether an event is a beacon of a device. -/
def isFrom (device : DeviceId) : AgentEvent → Bool
  | .receive _ b _ => b.device == device
  | .tick _ => false

end AgentEvent

namespace Agent

theorem run_append_singleton (a : Agent) (history : List AgentEvent) (e : AgentEvent) :
    a.run (history ++ [e]) = (a.run history).step e := by
  rw [run, List.foldl_append]
  rfl

/-! ## Last beacons -/

/-- The last beacon of a device in a history is `b`, which came from `source` at time `t`, and
`later` happened since. -/
structure LastBeacon (history : List AgentEvent) (device : DeviceId) (source : Address)
    (b : Beacon) (t : Instant) (later : List AgentEvent) : Prop where
  arrived : ∃ before, history = before ++ .receive source b t :: later
  sender : b.device = device
  last : ∀ e ∈ later, e.isFrom device = false

section

variable {config : ElectionConfig} {history : List AgentEvent} {e : AgentEvent}
  {device : DeviceId} {source : Address} {b : Beacon} {t now : Instant} {p : Peer}

/-- A beacon is the last one, or it was the last one before and the event is no beacon of the
same device. -/
theorem lastBeacon_append_singleton {later : List AgentEvent} :
    LastBeacon (history ++ [e]) device source b t later ↔
      e = .receive source b t ∧ b.device = device ∧ later = [] ∨
        e.isFrom device = false ∧
          ∃ init, later = init ++ [e] ∧ LastBeacon history device source b t init := by
  constructor
  · rintro ⟨⟨before, heq⟩, hsender, hlast⟩
    rcases append_singleton_eq_append_cons_iff.mp heq with ⟨rfl, -, he⟩ | ⟨init, rfl, hhistory⟩
    · exact .inl ⟨he, hsender, rfl⟩
    · refine .inr ⟨hlast e (by simp), init, rfl, ⟨before, hhistory⟩, hsender, ?_⟩
      exact fun e' he' => hlast e' (List.mem_append_left _ he')
  · rintro (⟨rfl, hsender, rfl⟩ | ⟨hother, init, rfl, ⟨before, rfl⟩, hsender, hlast⟩)
    · exact ⟨⟨history, rfl⟩, hsender, fun e he => absurd he List.not_mem_nil⟩
    · refine ⟨⟨before, by simp⟩, hsender, fun e' he' => ?_⟩
      rcases List.mem_append.mp he' with he' | he'
      · exact hlast e' he'
      · rw [List.mem_singleton.mp he']
        exact hother

/-- What an agent still knows of another device: its last beacon did not take it out of the
election, and no tick since then found the beacon too old. -/
def Remembered (config : ElectionConfig) (history : List AgentEvent) (device : DeviceId)
    (p : Peer) : Prop :=
  device ≠ config.device ∧ ∃ source b t later, LastBeacon history device source b t later ∧
    b.isDrop = false ∧ p = ⟨b.priority, source, t⟩ ∧
    ∀ now, .tick now ∈ later → now.since t < config.leaderTimeout

theorem not_remembered_nil : ¬ Remembered config [] device p := by
  rintro ⟨-, source, b, t, later, ⟨⟨before, heq⟩, -⟩, -⟩
  simp at heq

/-- What is known of a device does not change with the beacons of others. -/
theorem remembered_receive_of_ne (h : b.device ≠ device) :
    Remembered config (history ++ [.receive source b now]) device p ↔
      Remembered config history device p := by
  refine and_congr_right fun _ => ?_
  constructor
  · rintro ⟨source', b', t, later, hlast, hkeep, hp, hyoung⟩
    rcases lastBeacon_append_singleton.mp hlast with ⟨heq, hsender, -⟩ | ⟨-, init, rfl, hinit⟩
    · obtain ⟨-, rfl, -⟩ := AgentEvent.receive.inj heq
      exact absurd hsender h
    · exact ⟨source', b', t, init, hinit, hkeep, hp,
        fun now hnow => hyoung now (List.mem_append_left _ hnow)⟩
  · rintro ⟨source', b', t, later, hlast, hkeep, hp, hyoung⟩
    refine ⟨source', b', t, _, lastBeacon_append_singleton.mpr (.inr ⟨?_, later, rfl, hlast⟩),
      hkeep, hp, fun now hnow => ?_⟩
    · exact beq_false_of_ne h
    · rcases List.mem_append.mp hnow with hnow | hnow
      · exact hyoung now hnow
      · cases List.mem_singleton.mp hnow

/-- After a beacon of a device, what is known of it is what the beacon said. -/
theorem remembered_receive_self (h : b.device ≠ config.device) :
    Remembered config (history ++ [.receive source b now]) b.device p ↔
      b.isDrop = false ∧ p = ⟨b.priority, source, now⟩ := by
  constructor
  · rintro ⟨-, source', b', t, later, hlast, hkeep, hp, -⟩
    rcases lastBeacon_append_singleton.mp hlast with ⟨heq, -⟩ | ⟨hother, -⟩
    · obtain ⟨rfl, rfl, rfl⟩ := AgentEvent.receive.inj heq
      exact ⟨hkeep, hp⟩
    · simp [AgentEvent.isFrom] at hother
  · rintro ⟨hkeep, hp⟩
    exact ⟨h, source, b, now, [], lastBeacon_append_singleton.mpr (.inl ⟨rfl, rfl, rfl⟩), hkeep,
      hp, fun _ hnow => absurd hnow List.not_mem_nil⟩

/-- A tick leaves what it does not find too old. -/
theorem remembered_tick :
    Remembered config (history ++ [.tick now]) device p ↔
      Remembered config history device p ∧ now.since p.lastSeen < config.leaderTimeout := by
  constructor
  · rintro ⟨hne, source, b, t, later, hlast, hkeep, rfl, hyoung⟩
    rcases lastBeacon_append_singleton.mp hlast with ⟨heq, -⟩ | ⟨-, init, rfl, hinit⟩
    · cases heq
    · refine ⟨⟨hne, source, b, t, init, hinit, hkeep, rfl, fun now' hnow' => ?_⟩, ?_⟩
      · exact hyoung now' (List.mem_append_left _ hnow')
      · exact hyoung now (List.mem_append_right _ (List.mem_singleton_self _))
  · rintro ⟨⟨hne, source, b, t, later, hlast, hkeep, rfl, hyoung⟩, hnow⟩
    refine ⟨hne, source, b, t, _,
      lastBeacon_append_singleton.mpr (.inr ⟨rfl, later, rfl, hlast⟩), hkeep, rfl, ?_⟩
    intro now' hnow'
    rcases List.mem_append.mp hnow' with hnow' | hnow'
    · exact hyoung now' hnow'
    · obtain rfl := AgentEvent.tick.inj (List.mem_singleton.mp hnow')
      exact hnow

/-! ## What is observed -/

theorem find?_receive_of_ne {a : Agent} (h : b.device ≠ device) :
    (a.receive source b now).1.observed.find? device = a.observed.find? device := by
  generalize hr : a.receive source b now = r
  cases receive_reaction hr with
  | own => rfl
  | forgot =>
    show (a.forget b.device now).observed.find? device = _
    rw [observed_forget, SortedMap.find?_erase_of_ne _ (Ne.symm h)]
  | noted | followed | yielded => exact SortedMap.find?_insert_of_ne _ _ h

theorem find?_receive_self {a : Agent} (h : b.device ≠ a.config.device) :
    (a.receive source b now).1.observed.find? b.device = some p ↔
      b.isDrop = false ∧ p = ⟨b.priority, source, now⟩ := by
  cases hdrop : b.isDrop with
  | true =>
    rw [receive_of_drop h hdrop, observed_forget, SortedMap.find?_erase_self]
    simp
  | false =>
    rw [observed_receive_of_keep h hdrop, find?_observe, if_pos rfl, Option.some_inj, eq_comm]
    simp

/-- The agent observes exactly the devices of which its history tells, with what it tells. -/
theorem find?_run_iff (config : ElectionConfig) (started : Instant) (history : List AgentEvent)
    (device : DeviceId) (p : Peer) :
    ((start config started).run history).observed.find? device = some p ↔
      Remembered config history device p := by
  induction history using List.reverseRecOn with
  | nil => exact iff_of_false (by simp [run, start]) not_remembered_nil
  | append_singleton history e ih =>
    have hconfig : ((start config started).run history).config = config := config_run _ _
    rw [run_append_singleton]
    cases e with
    | receive source b now =>
      show (receive _ source b now).1.observed.find? device = some p ↔ _
      by_cases hsender : b.device = device
      · subst hsender
        by_cases hown : b.device = config.device
        · rw [receive_of_own (by rw [hconfig]; exact hown), ih]
          exact iff_of_false (fun h => h.1 hown) fun h => h.1 hown
        · rw [find?_receive_self (by rw [hconfig]; exact hown), remembered_receive_self hown]
      · rw [find?_receive_of_ne hsender, ih, remembered_receive_of_ne hsender]
    | tick now =>
      show (tick _ now).observed.find? device = some p ↔ _
      rw [observed_tick, find?_age, hconfig, ih, remembered_tick]

/-- No event is earlier than one before it. -/
def Chronological (history : List AgentEvent) : Prop :=
  history.Pairwise fun e e' => e.time ≤ e'.time

/-- What the last beacon of another device said, if the beacon did not take the device out of
the election and is recent. -/
def Current (config : ElectionConfig) (history : List AgentEvent) (now : Instant)
    (device : DeviceId) (p : Peer) : Prop :=
  device ≠ config.device ∧ ∃ source b t later, LastBeacon history device source b t later ∧
    b.isDrop = false ∧ p = ⟨b.priority, source, t⟩ ∧ now.since t < config.leaderTimeout

/-- As time does not go back, a beacon that is recent now was so at every tick before. -/
theorem remembered_tick_iff_current (htimes : Chronological (history ++ [.tick now])) :
    Remembered config (history ++ [.tick now]) device p ↔
      Current config history now device p := by
  rw [remembered_tick]
  constructor
  · rintro ⟨⟨hne, source, b, t, later, hlast, hkeep, rfl, -⟩, hnow⟩
    exact ⟨hne, source, b, t, later, hlast, hkeep, rfl, hnow⟩
  · rintro ⟨hne, source, b, t, later, hlast, hkeep, rfl, hnow⟩
    refine ⟨⟨hne, source, b, t, later, hlast, hkeep, rfl, fun now' hnow' => ?_⟩, hnow⟩
    obtain ⟨before, rfl⟩ := hlast.arrived
    have hle : now' ≤ now :=
      (List.pairwise_append.mp htimes).2.2 (.tick now')
        (List.mem_append_right _ (List.mem_cons_of_mem _ hnow')) (.tick now)
        (List.mem_singleton_self _)
    exact Nat.lt_of_le_of_lt (Nat.sub_le_sub_right hle t) hnow

/-- A tick leaves of what is observed what is current. -/
theorem find?_age_run_iff {started : Instant} (htimes : Chronological (history ++ [.tick now])) :
    (((start config started).run history).age now).observed.find? device = some p ↔
      Current config history now device p := by
  rw [← observed_tick, ← remembered_tick_iff_current htimes, ← find?_run_iff config started,
    run_append_singleton]
  rfl

theorem find?_age_eq_none_iff {a : Agent} (h : a.observed.find? device = some p) :
    (a.age now).observed.find? device = none ↔
      a.config.leaderTimeout ≤ now.since p.lastSeen := by
  unfold age
  rw [SortedMap.find?_filter, h]
  simp

/-! ## How long a candidate has been one -/

/-- Since when an agent has been a candidate, if it is one after an event. -/
theorem candidateSince_step {a : Agent} (h : (a.step e).role = .candidate) :
    (a.step e).candidateSince = if a.role = .candidate then a.candidateSince else e.time := by
  cases e with
  | receive source b now =>
    show (a.receive source b now).1.candidateSince = _
    replace h : (a.receive source b now).1.role = .candidate := h
    generalize hr : a.receive source b now = r at h ⊢
    cases receive_reaction hr with
    | own | noted => exact (if_pos h).symm
    | forgot =>
      rcases forget_cases a b.device now with ⟨address, hrole, heq⟩ | ⟨-, heq⟩
      · rw [heq, hrole]
        rfl
      · rw [heq] at h ⊢
        exact (if_pos h).symm
    | followed | yielded => cases h
  | tick now =>
    show (a.tick now).candidateSince = _
    replace h : (a.tick now).role = .candidate := h
    generalize ht : a.tick now = a' at h ⊢
    cases tick_turn ht with
    | led | followed | waited | undecided => exact (if_pos h).symm
    | released leader address hrole =>
      rw [hrole]
      rfl
    | promoted | chose => cases h

/-- The agent became a candidate at a time, or started then, and has been one after every event
since. -/
def CandidateSince (config : ElectionConfig) (started : Instant) (history : List AgentEvent)
    (since : Instant) : Prop :=
  ∃ before later, history = before ++ later ∧
    (∀ mid, mid <+: later → ((start config started).run (before ++ mid)).role = .candidate) ∧
    (before = [] ∧ since = started ∨
      ∃ init e, before = init ++ [e] ∧ ((start config started).run init).role ≠ .candidate ∧
        since = e.time)

theorem candidateSince_nil {started since : Instant} :
    CandidateSince config started [] since ↔ since = started := by
  constructor
  · rintro ⟨before, later, heq, -, ⟨-, hsince⟩ | ⟨init, e, rfl, -⟩⟩
    · exact hsince
    · simp at heq
  · rintro rfl
    refine ⟨[], [], rfl, fun mid hmid => ?_, .inl ⟨rfl, rfl⟩⟩
    rw [List.prefix_nil.mp hmid]
    rfl

theorem candidateSince_append_singleton {started since : Instant} :
    CandidateSince config started (history ++ [e]) since ↔
      ((start config started).run (history ++ [e])).role = .candidate ∧
        if ((start config started).run history).role = .candidate
        then CandidateSince config started history since else since = e.time := by
  constructor
  · rintro ⟨before, later, heq, hrole, hbegan⟩
    refine ⟨by rw [heq]; exact hrole later (List.prefix_refl later), ?_⟩
    rcases List.eq_nil_or_concat later with rfl | ⟨later, e', rfl⟩
    · -- the candidacy began with the event
      rw [List.append_nil] at heq
      subst heq
      rcases hbegan with ⟨hnil, -⟩ | ⟨init, e', heq, hbefore, hsince⟩
      · simp at hnil
      · obtain ⟨rfl, he⟩ := List.append_inj' heq rfl
        rw [if_neg hbefore, hsince, List.head_eq_of_cons_eq he]
    · rw [List.concat_eq_append] at heq hrole
      rw [← List.append_assoc] at heq
      obtain ⟨rfl, -⟩ := List.append_inj' heq rfl
      have hbefore : ∀ mid, mid <+: later →
          ((start config started).run (before ++ mid)).role = .candidate :=
        fun mid hmid => hrole mid (hmid.trans (List.prefix_append _ _))
      rw [if_pos (hbefore later (List.prefix_refl later))]
      exact ⟨before, later, rfl, hbefore, hbegan⟩
  · rintro ⟨hrole, h⟩
    split_ifs at h with hbefore
    · obtain ⟨before, later, rfl, hsince, hbegan⟩ := h
      refine ⟨before, later ++ [e], List.append_assoc .., fun mid hmid => ?_, hbegan⟩
      rcases List.prefix_concat_iff.mp hmid with rfl | hmid
      · rw [← List.append_assoc]
        exact hrole
      · exact hsince mid hmid
    · refine ⟨history ++ [e], [], (List.append_nil _).symm, fun mid hmid => ?_,
        .inr ⟨history, e, rfl, hbefore, h⟩⟩
      rw [List.prefix_nil.mp hmid, List.append_nil]
      exact hrole

/-- The agent keeps the time since when it has been a candidate. -/
theorem candidateSince_iff {started since : Instant} :
    CandidateSince config started history since ↔
      ((start config started).run history).role = .candidate ∧
        ((start config started).run history).candidateSince = since := by
  induction history using List.reverseRecOn with
  | nil =>
    rw [candidateSince_nil, eq_comm]
    exact (and_iff_right rfl).symm
  | append_singleton history e ih =>
    rw [candidateSince_append_singleton]
    refine and_congr_right fun hrole => ?_
    rw [run_append_singleton] at hrole ⊢
    rw [candidateSince_step hrole]
    split_ifs with hbefore
    · rw [ih]
      exact and_iff_right hbefore
    · exact eq_comm

/-! ## How roles change -/

/-- An agent starts to lead in a tick alone, after it listened long enough, if it may lead and
outranks all others that may. -/
theorem step_eq_leader_iff {a : Agent} (h : a.role ≠ .leader) :
    (a.step e).role = .leader ↔
      ∃ now, e = .tick now ∧ 0 < a.config.priority ∧
        (a.role = .candidate ∧ a.config.window ≤ now.since a.candidateSince) ∧
        ∀ device p, (a.age now).observed.find? device = some p → 0 < p.priority →
          a.config.rank.outranks (p.rank device) = true := by
  cases e with
  | receive source b now =>
    refine iff_of_false (fun hlead => ?_) (by simp)
    replace hlead : (a.receive source b now).1.role = .leader := hlead
    generalize hr : a.receive source b now = r at hlead
    cases receive_reaction hr with
    | own | noted => exact h hlead
    | forgot =>
      rcases forget_cases a b.device now with ⟨_, -, heq⟩ | ⟨-, heq⟩
      · rw [heq] at hlead
        cases hlead
      · rw [heq] at hlead
        exact h hlead
    | followed | yielded => cases hlead
  | tick now =>
    show (a.tick now).role = .leader ↔ _
    constructor
    · intro hlead
      generalize ht : a.tick now = a' at hlead
      cases tick_turn ht with
      | led | followed | waited | undecided => exact absurd hlead h
      | released | chose => cases hlead
      | promoted hrole hwindow hmay hbest =>
        exact ⟨now, rfl, hmay, ⟨hrole, hwindow⟩, fun device p hp _ => hbest device p hp⟩
    · rintro ⟨_, ⟨⟩, hmay, ⟨hrole, hwindow⟩, hbest⟩
      generalize ht : a.tick now = a'
      cases tick_turn ht with
      | led hrole' => exact absurd hrole' h
      | followed _ _ _ hrole' | released _ _ hrole' =>
        rw [hrole] at hrole'
        cases hrole'
      | waited _ hwait => exact absurd hwindow (Nat.not_le_of_lt hwait)
      | promoted => rfl
      | chose device p _ _ hseen hpos _ hlost =>
        exact absurd (hbest device p hseen hpos) (Bool.eq_false_iff.mp (hlost hmay))
      | undecided _ _ hzero =>
        rw [hzero] at hmay
        exact absurd hmay (by decide)

/-- A follower becomes a candidate when its leader takes itself out of the election, and in a
tick that forgets the leader. -/
theorem step_eq_candidate_iff {a : Agent} {leader : DeviceId} {address : Address}
    (hrole : a.role = .follower leader address) (hne : leader ≠ a.config.device) :
    (a.step e).role = .candidate ↔
      (∃ source b now, e = .receive source b now ∧ b.device = leader ∧ b.isDrop = true) ∨
        ∃ now, e = .tick now ∧ (a.age now).observed.find? leader = none := by
  cases e with
  | receive source b now =>
    refine Iff.trans ?_ (show b.device = leader ∧ b.isDrop = true ↔ _ by simp)
    show (a.receive source b now).1.role = .candidate ↔ _
    generalize hr : a.receive source b now = r
    cases receive_reaction hr with
    | own hown =>
      show a.role = .candidate ↔ _
      rw [hrole]
      exact iff_of_false nofun fun h => hne (h.1.symm.trans hown)
    | forgot _ hdrop =>
      rcases forget_cases a b.device now with ⟨_, hleader, heq⟩ | ⟨hleader, heq⟩
      · rw [heq]
        obtain ⟨rfl, -⟩ := Role.follower.inj (hrole.symm.trans hleader)
        exact iff_of_true rfl ⟨rfl, hdrop⟩
      · rw [heq]
        show a.role = .candidate ↔ _
        rw [hrole]
        refine iff_of_false nofun ?_
        rintro ⟨rfl, -⟩
        exact hleader address hrole
    | noted _ hkeep =>
      show a.role = .candidate ↔ _
      rw [hrole, hkeep]
      exact iff_of_false nofun fun h => nomatch h.2
    | followed _ _ _ hkeep | yielded _ hkeep =>
      rw [hkeep]
      exact iff_of_false nofun fun h => nomatch h.2
  | tick now =>
    refine Iff.trans ?_ (show (a.age now).observed.find? leader = none ↔ _ by simp)
    show (a.tick now).role = .candidate ↔ _
    generalize ht : a.tick now = a'
    cases tick_turn ht with
    | led hrole' | waited hrole' | promoted hrole' | chose _ _ hrole' | undecided hrole' =>
      rw [hrole] at hrole'
      cases hrole'
    | followed leader' _ p hrole' hseen =>
      obtain ⟨rfl, -⟩ := Role.follower.inj (hrole.symm.trans hrole')
      show a.role = .candidate ↔ _
      rw [hrole, hseen]
      exact iff_of_false nofun nofun
    | released leader' _ hrole' hgone =>
      obtain ⟨rfl, -⟩ := Role.follower.inj (hrole.symm.trans hrole')
      exact iff_of_true rfl hgone

/-- A follower observes its leader. -/
def ObservesLeader (a : Agent) : Prop :=
  ∀ leader address, a.role = .follower leader address → ∃ p, a.observed.find? leader = some p

theorem ObservesLeader.step {a : Agent} (h : a.ObservesLeader) (e : AgentEvent) :
    (a.step e).ObservesLeader := by
  cases e with
  | receive source b now =>
    show (a.receive source b now).1.ObservesLeader
    generalize hr : a.receive source b now = r
    cases receive_reaction hr with
    | own => exact h
    | forgot =>
      rcases forget_cases a b.device now with ⟨_, -, heq⟩ | ⟨hrole, heq⟩
      · rw [heq]
        exact nofun
      · rw [heq]
        intro leader address hfollow
        have hne : leader ≠ b.device := by
          rintro rfl
          exact hrole address hfollow
        obtain ⟨p, hp⟩ := h leader address hfollow
        exact ⟨p, (SortedMap.find?_erase_of_ne _ hne).trans hp⟩
    | noted =>
      intro leader address hfollow
      rw [find?_observe]
      split_ifs with hsender
      · exact ⟨_, rfl⟩
      · exact h leader address hfollow
    | followed | yielded =>
      intro leader address hfollow
      obtain ⟨rfl, rfl⟩ := Role.follower.inj hfollow
      exact ⟨_, SortedMap.find?_insert_self _ _ _⟩
  | tick now =>
    show (a.tick now).ObservesLeader
    generalize ht : a.tick now = a'
    intro leader address hfollow
    cases tick_turn ht with
    | led hrole | waited hrole | undecided hrole =>
      replace hfollow : a.role = .follower leader address := hfollow
      rw [hrole] at hfollow
      cases hfollow
    | followed leader' _ p hrole hseen =>
      obtain ⟨rfl, -⟩ := Role.follower.inj (hrole.symm.trans hfollow)
      exact ⟨p, hseen⟩
    | released | promoted => cases hfollow
    | chose device p _ _ hseen =>
      obtain ⟨rfl, -⟩ := Role.follower.inj hfollow
      exact ⟨p, hseen⟩

theorem observesLeader_run (config : ElectionConfig) (started : Instant)
    (history : List AgentEvent) : ((start config started).run history).ObservesLeader :=
  List.foldlRecOn (motive := ObservesLeader) history step nofun fun _ h e _ => h.step e

/-- What is observed, who is promoted and who is let go depends on the last beacons and their
times alone. A tick leaves the other devices whose last beacon was an announcement and is
recent, with what that beacon said. An agent starts to lead exactly in a tick that finds that
it may lead, has been a candidate without interruption for the window, and outranks all of
those devices that may lead. A follower becomes a candidate exactly when its leader takes itself
out of the election, or in the first tick for which the leader's last beacon is too old. -/
theorem roles_follow_beacons (config : ElectionConfig) (started : Instant)
    (history : List AgentEvent) (e : AgentEvent) (htimes : Chronological (history ++ [e])) :
    let a := (start config started).run history
    let a' := (start config started).run (history ++ [e])
    (∀ now, e = .tick now → ∀ device p,
      a'.observed.find? device = some p ↔ Current config history now device p) ∧
    (a.role ≠ .leader →
      (a'.role = .leader ↔
        ∃ now, e = .tick now ∧ 0 < config.priority ∧
          (∃ since, CandidateSince config started history since ∧
            config.window ≤ now.since since) ∧
          ∀ device p, Current config history now device p → 0 < p.priority →
            config.rank.outranks (p.rank device) = true)) ∧
    ∀ leader address, a.role = .follower leader address →
      ∃ source b t later, LastBeacon history leader source b t later ∧ b.isDrop = false ∧
        (∀ now, .tick now ∈ later → now.since t < config.leaderTimeout) ∧
        (a'.role = .candidate ↔
          (∃ source' b' now, e = .receive source' b' now ∧ b'.device = leader ∧
            b'.isDrop = true) ∨
          ∃ now, e = .tick now ∧ config.leaderTimeout ≤ now.since t) := by
  intro a a'
  have hconfig : a.config = config := config_run _ _
  have hstep : a' = a.step e := run_append_singleton _ _ _
  refine ⟨?_, fun hrole => ?_, fun leader address hrole => ?_⟩
  · rintro now rfl device p
    exact (find?_run_iff config started _ device p).trans (remembered_tick_iff_current htimes)
  · rw [hstep, step_eq_leader_iff hrole, hconfig]
    refine exists_congr fun now => and_congr_right fun he => and_congr_right fun _ => ?_
    subst he
    refine and_congr ?_ ?_
    · simp only [candidateSince_iff]
      constructor
      · rintro ⟨hcandidate, hwindow⟩
        exact ⟨_, ⟨hcandidate, rfl⟩, hwindow⟩
      · rintro ⟨_, ⟨hcandidate, rfl⟩, hwindow⟩
        exact ⟨hcandidate, hwindow⟩
    · exact forall₂_congr fun device p => by rw [find?_age_run_iff htimes]
  · obtain ⟨p, hp⟩ := observesLeader_run config started history leader address hrole
    obtain ⟨hne, source, b, t, later, hlast, hkeep, rfl, hyoung⟩ :=
      (find?_run_iff config started history leader p).mp hp
    refine ⟨source, b, t, later, hlast, hkeep, hyoung, ?_⟩
    rw [hstep, step_eq_candidate_iff hrole (by rw [hconfig]; exact hne)]
    refine or_congr_right (exists_congr fun now => and_congr_right fun _ => ?_)
    rw [find?_age_eq_none_iff hp, hconfig]

end

/-- An agent that forgets a leader after 40 and listens for 30. -/
def impatient : ElectionConfig :=
  { device := 1, priority := 5, window := 30, leaderTimeout := 40 }

/-- A better device is heard once and followed. -/
def heardOnce : List AgentEvent :=
  [.receive (.ofOctets 10 0 0 2) (Beacon.new 2 9 0 false) 10, .tick 30, .tick 49]

/-- It is let go, and a worse one is heard. -/
def letGo : List AgentEvent :=
  heardOnce ++ [.tick 50, .receive (.ofOctets 10 0 0 3) (Beacon.new 3 2 0 false) 60]

theorem silent_leader_succeeded :
    Chronological (letGo ++ [.tick 80]) ∧
      ((start impatient 0).run heardOnce).role = .follower 2 (.ofOctets 10 0 0 2) ∧
      ((start impatient 0).run (heardOnce ++ [.tick 50])).role = .candidate ∧
      (∃ source b t later, LastBeacon heardOnce 2 source b t later ∧ 40 ≤ Instant.since 50 t) ∧
      ((start impatient 0).run (letGo ++ [.tick 80])).role = .leader ∧
      (∃ since, CandidateSince impatient 0 letGo since ∧ 30 ≤ Instant.since 80 since) ∧
      Current impatient letGo 80 3 ⟨2, .ofOctets 10 0 0 3, 60⟩ := by
  have hshort : Chronological (heardOnce ++ [.tick 50]) := by
    unfold Chronological
    decide
  have hlong : Chronological (letGo ++ [.tick 80]) := by
    unfold Chronological
    decide
  have hfollower : ((start impatient 0).run heardOnce).role = .follower 2 (.ofOctets 10 0 0 2) := by
    decide
  have hcandidate : ((start impatient 0).run (heardOnce ++ [.tick 50])).role = .candidate := by
    decide
  have hleader : ((start impatient 0).run (letGo ++ [.tick 80])).role = .leader := by decide
  obtain ⟨-, -, hlost⟩ := roles_follow_beacons impatient 0 heardOnce (.tick 50) hshort
  obtain ⟨hseen, hwon, -⟩ := roles_follow_beacons impatient 0 letGo (.tick 80) hlong
  obtain ⟨source, b, t, later, hlast, -, -, hiff⟩ := hlost 2 _ hfollower
  obtain ⟨_, _, _, he, -⟩ | ⟨_, he, hold⟩ := hiff.mp hcandidate
  · cases he
  obtain ⟨_, he', -, hsince, -⟩ := (hwon (by decide)).mp hleader
  cases he
  cases he'
  exact ⟨hlong, hfollower, hcandidate, ⟨source, b, t, later, hlast, hold⟩, hleader, hsince,
    (hseen 80 rfl 3 _).mp (by decide)⟩

end Agent

end LinkFabric
