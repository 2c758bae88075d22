import LinkFabric.Proofs.BeaconHistory

/-!
# Leaders that announce no priority

A device takes itself out of the election with a beacon that says so, and its followers let it go.
It may also announce itself with priority zero, which no leader has. An agent notes such an
announcement, and where it came from, but a follower of the device stays with it, at the address
where the device last stood for election. It does so until somebody stands for election, or the
device takes itself out, or falls silent.

Main results:

* `Agent.stood_run`: a follower reaches its leader where the leader last stood for election.
* `Agent.followsZero_step_iff`: which events make an agent follow a leader without a priority, and
  which keep it with one.
* `Agent.renounced_leader_kept_until_released`: when an agent follows such a leader.
-/

namespace LinkFabric

namespace Agent

section

variable {config : ElectionConfig} {history : List AgentEvent} {e : AgentEvent}
  {device leader : DeviceId} {source address : Address} {b : Beacon} {t now : Instant}
  {later : List AgentEvent} {a : Agent}

/-! ## Standing for election -/

/-- A device stood for election with a beacon from an address, and sent nothing since but
announcements of priority zero. -/
def Stood (history : List AgentEvent) (device : DeviceId) (address : Address) : Prop :=
  ∃ before b t later, history = before ++ .receive address b t :: later ∧ b.device = device ∧
    b.isDrop = false ∧ 0 < b.priority ∧
    ∀ source b' t', .receive source b' t' ∈ later → b'.device = device →
      b'.isDrop = false ∧ b'.priority = 0

theorem stood_of_lastBeacon (h : LastBeacon history device source b t later)
    (hkeep : b.isDrop = false) (hpos : 0 < b.priority) : Stood history device source := by
  obtain ⟨⟨before, rfl⟩, hsender, hlast⟩ := h
  refine ⟨before, b, t, later, rfl, hsender, hkeep, hpos, fun source' b' t' hmem hdevice => ?_⟩
  exact absurd (hlast _ hmem) (by simp [AgentEvent.isFrom, hdevice])

theorem Stood.append_singleton (h : Stood history device address)
    (hother : ∀ source b t, e = .receive source b t → b.device = device →
      b.isDrop = false ∧ b.priority = 0) : Stood (history ++ [e]) device address := by
  obtain ⟨before, b, t, later, rfl, hsender, hkeep, hpos, hlater⟩ := h
  refine ⟨before, b, t, later ++ [e], by simp, hsender, hkeep, hpos, fun source b' t' hmem => ?_⟩
  rcases List.mem_append.mp hmem with hmem | hmem
  · exact hlater source b' t' hmem
  · exact hother source b' t' (List.mem_singleton.mp hmem).symm

/-- If the last beacon of a device has a priority, it is the one with which the device stood. -/
theorem Stood.address_eq (h : Stood history device address)
    (hlast : LastBeacon history device source b t later) (hpos : 0 < b.priority) :
    source = address := by
  obtain ⟨before, b', t', later', rfl, hsender', -, -, hlater'⟩ := h
  obtain ⟨⟨before₁, heq⟩, hsender, hlast⟩ := hlast
  rcases List.append_eq_append_iff.mp heq with ⟨mid, -, hmid⟩ | ⟨mid, -, hmid⟩
  · cases mid with
    | nil => exact (AgentEvent.receive.inj (List.head_eq_of_cons_eq hmid)).1.symm
    | cons first mid =>
      -- The last beacon came after the one with which the device stood.
      have hmem : .receive source b t ∈ later' := by
        rw [List.tail_eq_of_cons_eq hmid]
        simp
      rw [(hlater' source b t hmem hsender).2] at hpos
      exact absurd hpos (by decide)
  · cases mid with
    | nil => exact (AgentEvent.receive.inj (List.head_eq_of_cons_eq hmid)).1
    | cons first mid =>
      have hmem : .receive address b' t' ∈ later := by
        rw [List.tail_eq_of_cons_eq hmid]
        simp
      exact absurd (hlast _ hmem) (by simp [AgentEvent.isFrom, hsender'])

/-- A device that is observed with a priority stood for election where it is observed. -/
theorem stood_of_find? {started : Instant} {p : Peer}
    (hseen : ((start config started).run history).observed.find? device = some p)
    (hpos : 0 < p.priority) : Stood history device p.address := by
  obtain ⟨-, source, b, t, later, hlast, hkeep, rfl, -⟩ := (find?_run_iff ..).mp hseen
  exact stood_of_lastBeacon hlast hkeep hpos

/-- A leader is the one from before, unless it stands for election in the event or is chosen in
a tick from among those observed with a priority. -/
theorem follower_step_cases (hrole : (a.step e).role = .follower leader address) :
    (a.role = .follower leader address ∧
      ∀ source b t, e = .receive source b t → b.device = leader →
        b.device = a.config.device ∨ b.isDrop = false ∧ b.priority = 0) ∨
    (∃ b now, e = .receive address b now ∧ b.device = leader ∧ b.isDrop = false ∧
      0 < b.priority) ∨
    ∃ now p, e = .tick now ∧ a.observed.find? leader = some p ∧ 0 < p.priority ∧
      p.address = address := by
  cases e with
  | receive source b now =>
    replace hrole : (a.receive source b now).1.role = .follower leader address := hrole
    generalize hr : a.receive source b now = r at hrole
    cases receive_reaction hr with
    | own hown =>
      refine .inl ⟨hrole, fun source' b' t heq _ => ?_⟩
      obtain ⟨-, rfl, -⟩ := AgentEvent.receive.inj heq
      exact .inl hown
    | forgot =>
      rcases forget_cases a b.device now with ⟨_, -, hforget⟩ | ⟨hother, hforget⟩
      · rw [hforget] at hrole
        cases hrole
      · rw [hforget] at hrole
        refine .inl ⟨hrole, fun source' b' t heq hdevice => ?_⟩
        obtain ⟨-, rfl, -⟩ := AgentEvent.receive.inj heq
        exact absurd (hdevice ▸ hrole) (hother address)
    | noted _ hkeep hunmoved =>
      replace hrole : a.role = .follower leader address := hrole
      refine .inl ⟨hrole, fun source' b' t heq hdevice => ?_⟩
      obtain ⟨-, rfl, -⟩ := AgentEvent.receive.inj heq
      rcases hunmoved with hzero | hunmoved
      · exact .inr ⟨hkeep, hzero⟩
      · rw [hrole] at hunmoved
        exact absurd hdevice.symm hunmoved.1
    | followed _ _ _ hkeep hpos | yielded _ hkeep hpos =>
      obtain ⟨rfl, rfl⟩ := Role.follower.inj hrole
      exact .inr (.inl ⟨b, now, rfl, rfl, hkeep, hpos⟩)
  | tick now =>
    replace hrole : (a.tick now).role = .follower leader address := hrole
    generalize ht : a.tick now = a' at hrole
    cases tick_turn ht with
    | led hrole' | waited hrole' | undecided hrole' => cases hrole'.symm.trans hrole
    | released | promoted => cases hrole
    | followed => exact .inl ⟨hrole, nofun⟩
    | chose device p _ _ hseen hpos =>
      obtain ⟨rfl, rfl⟩ := Role.follower.inj hrole
      exact .inr (.inr ⟨now, p, rfl, (find?_age.mp hseen).1, hpos, rfl⟩)

theorem leader_ne_of_run {started : Instant}
    (hrole : ((start config started).run history).role = .follower leader address) :
    leader ≠ config.device := by
  obtain ⟨p, hp⟩ := observesLeader_run config started history leader address hrole
  exact ((find?_run_iff ..).mp hp).1

/-- A follower reaches its leader at the address where the leader last stood for election. -/
theorem stood_run (config : ElectionConfig) (started : Instant) (history : List AgentEvent)
    (hrole : ((start config started).run history).role = .follower leader address) :
    Stood history leader address := by
  induction history using List.reverseRecOn generalizing leader address with
  | nil => cases hrole
  | append_singleton history e ih =>
    rw [run_append_singleton] at hrole
    rcases follower_step_cases hrole with
      ⟨hbefore, hsilent⟩ | ⟨b, now, rfl, hsender, hkeep, hpos⟩ | ⟨now, p, rfl, hp, hpos, rfl⟩
    · refine (ih hbefore).append_singleton fun source b t he hdevice => ?_
      rcases hsilent source b t he hdevice with hown | hzero
      · rw [config_run, hdevice] at hown
        exact absurd hown (leader_ne_of_run hbefore)
      · exact hzero
    · exact stood_of_lastBeacon (lastBeacon_append_singleton.mpr (.inl ⟨rfl, hsender, rfl⟩))
        hkeep hpos
    · exact (stood_of_find? hp hpos).append_singleton nofun

/-! ## Renounced leaders -/

/-- An agent follows a device that announced priority zero, or that announced itself elsewhere. -/
def Renounced (a : Agent) : Prop :=
  ∃ leader address p, a.role = .follower leader address ∧ a.observed.find? leader = some p ∧
    (p.priority = 0 ∨ p.address ≠ address)

/-- An agent follows a device that announced priority zero. -/
def FollowsZero (a : Agent) : Prop :=
  ∃ leader address p, a.role = .follower leader address ∧ a.observed.find? leader = some p ∧
    p.priority = 0

/-- The followed leader announces priority zero. -/
def Renounces (a : Agent) : AgentEvent → Prop
  | .receive _ b _ =>
    b.isDrop = false ∧ b.priority = 0 ∧ ∃ address, a.role = .follower b.device address
  | .tick _ => False

/-- Another device, or the leader itself, stands for election; or the leader takes itself out, or
has been silent for too long. -/
def Releases (a : Agent) : AgentEvent → Prop
  | .receive _ b _ =>
    b.device ≠ a.config.device ∧
      (b.isDrop = false ∧ 0 < b.priority ∨
        b.isDrop = true ∧ ∃ address, a.role = .follower b.device address)
  | .tick now =>
    ∃ leader address p, a.role = .follower leader address ∧ a.observed.find? leader = some p ∧
      a.config.leaderTimeout ≤ now.since p.lastSeen

theorem not_followsZero (h : a.isFollower = false) : ¬ a.FollowsZero := by
  rintro ⟨leader, address, -, hrole, -⟩
  rw [isFollower, hrole] at h
  cases h

theorem not_followsZero_of_pos {p : Peer} (hrole : a.role = .follower leader address)
    (hseen : a.observed.find? leader = some p) (hpos : 0 < p.priority) : ¬ a.FollowsZero := by
  rintro ⟨leader', address', p', hrole', hseen', hzero⟩
  obtain ⟨rfl, -⟩ := Role.follower.inj (hrole.symm.trans hrole')
  obtain rfl := Option.some.inj (hseen.symm.trans hseen')
  rw [hzero] at hpos
  exact absurd hpos (by decide)

theorem followsZero_congr {a' : Agent} (hrole : a'.role = a.role)
    (hseen : ∀ leader address, a.role = .follower leader address →
      a'.observed.find? leader = a.observed.find? leader) : a'.FollowsZero ↔ a.FollowsZero := by
  unfold FollowsZero
  rw [hrole]
  refine exists_congr fun leader => exists_congr fun address => exists_congr fun p => ?_
  exact and_congr_right fun hfollow => by rw [hseen leader address hfollow]

/-- A follower of a device without a priority changes over to whoever stands for election. -/
theorem FollowsZero.not_unmoved (h : a.FollowsZero) (hpos : 0 < b.priority) : ¬ a.Unmoved b := by
  obtain ⟨leader, address, p, hrole, hseen, hzero⟩ := h
  rintro (hnone | hunmoved)
  · rw [hnone] at hpos
    exact absurd hpos (by decide)
  · rw [hrole] at hunmoved
    have hbetter : b.rank.outranks (a.leaderRank leader) = true := by
      rw [leaderRank_of_find? hseen]
      exact Rank.outranks_of_priority hpos hzero
    exact absurd hbetter (Bool.eq_false_iff.mp hunmoved.2)

theorem followsZero_receive_iff
    (hother : ∀ leader address, a.role = .follower leader address → leader ≠ a.config.device) :
    (a.receive source b now).1.FollowsZero ↔
      a.Renounces (.receive source b now) ∨
        a.FollowsZero ∧ ¬ a.Releases (.receive source b now) := by
  generalize hr : a.receive source b now = r
  cases receive_reaction hr with
  | own hown =>
    have hstays : ¬ a.Renounces (.receive source b now) := by
      rintro ⟨-, -, address, hrole⟩
      exact hother _ _ hrole hown
    have hkept : ¬ a.Releases (.receive source b now) := fun h => h.1 hown
    simp [hstays, hkept]
  | forgot hne hdrop =>
    have hstays : ¬ a.Renounces (.receive source b now) := fun h =>
      absurd h.1 (by simp [hdrop])
    rcases forget_cases a b.device now with ⟨address, hrole, hforget⟩ | ⟨hrole, hforget⟩
    · have hreleased : a.Releases (.receive source b now) := ⟨hne, .inr ⟨hdrop, address, hrole⟩⟩
      rw [hforget]
      exact iff_of_false (not_followsZero rfl) (by simp [hstays, hreleased])
    · have hkept : ¬ a.Releases (.receive source b now) := by
        rintro ⟨-, ⟨hkeep, -⟩ | ⟨-, address, hfollow⟩⟩
        · cases hdrop.symm.trans hkeep
        · exact hrole address hfollow
      rw [hforget]
      simp only [hstays, hkept, not_false_eq_true, and_true, false_or]
      refine followsZero_congr rfl fun leader address hfollow => ?_
      refine SortedMap.find?_erase_of_ne _ fun hleader => ?_
      exact hrole address (hleader ▸ hfollow)
  | noted hne hkeep hunmoved =>
    by_cases hleader : ∃ address, a.role = .follower b.device address
    · -- An announcement of the leader that moves nothing has no priority.
      obtain ⟨address, hrole⟩ := hleader
      have hzero : b.priority = 0 := by
        rcases hunmoved with hzero | hunmoved
        · exact hzero
        · rw [hrole] at hunmoved
          exact absurd rfl hunmoved.1
      refine iff_of_true ?_ (.inl ⟨hkeep, hzero, address, hrole⟩)
      exact ⟨b.device, address, _, hrole, SortedMap.find?_insert_self _ _ _, hzero⟩
    · have hstays : ¬ a.Renounces (.receive source b now) := fun h => hleader h.2.2
      have hkept : a.FollowsZero → ¬ a.Releases (.receive source b now) := by
        rintro hfollows ⟨-, ⟨-, hpos⟩ | ⟨hdrop, -⟩⟩
        · exact hfollows.not_unmoved hpos hunmoved
        · cases hkeep.symm.trans hdrop
      have hsame : (a.observe source b now).FollowsZero ↔ a.FollowsZero := by
        refine followsZero_congr rfl fun leader address hfollow => ?_
        refine SortedMap.find?_insert_of_ne _ _ fun hsender => ?_
        exact hleader ⟨address, hsender ▸ hfollow⟩
      rw [hsame, or_iff_right hstays]
      exact ⟨fun h => ⟨h, hkept h⟩, And.left⟩
  | followed _ _ hne hkeep hpos | yielded hne hkeep hpos =>
    have hstays : ¬ a.Renounces (.receive source b now) := by
      rintro ⟨-, hzero, -⟩
      rw [hzero] at hpos
      exact absurd hpos (by decide)
    have hreleased : a.Releases (.receive source b now) := ⟨hne, .inl ⟨hkeep, hpos⟩⟩
    refine iff_of_false ?_ (by simp [hstays, hreleased])
    exact not_followsZero_of_pos rfl (SortedMap.find?_insert_self _ _ _) hpos

theorem followsZero_tick_iff :
    (a.tick now).FollowsZero ↔ a.FollowsZero ∧ ¬ a.Releases (.tick now) := by
  generalize ht : a.tick now = a'
  cases tick_turn ht with
  | led hrole | waited hrole | undecided hrole =>
    have hfollower : a.isFollower = false := by rw [isFollower, hrole]
    exact iff_of_false (not_followsZero hfollower) fun h => not_followsZero hfollower h.1
  | promoted hrole =>
    have hfollower : a.isFollower = false := by rw [isFollower, hrole]
    exact iff_of_false (not_followsZero rfl) fun h => not_followsZero hfollower h.1
  | chose device p hrole _ hseen hpos =>
    have hfollower : a.isFollower = false := by rw [isFollower, hrole]
    refine iff_of_false (not_followsZero_of_pos rfl hseen hpos) fun h => ?_
    exact not_followsZero hfollower h.1
  | followed leader address p hrole hseen =>
    obtain ⟨hbefore, hyoung⟩ := find?_age.mp hseen
    have hkept : ¬ a.Releases (.tick now) := by
      rintro ⟨leader', address', p', hrole', hseen', hold⟩
      obtain ⟨rfl, -⟩ := Role.follower.inj (hrole.symm.trans hrole')
      obtain rfl := Option.some.inj (hbefore.symm.trans hseen')
      exact absurd hyoung (Nat.not_lt_of_le hold)
    rw [and_iff_left hkept]
    refine followsZero_congr rfl fun leader' address' hrole' => ?_
    obtain ⟨rfl, -⟩ := Role.follower.inj (hrole.symm.trans hrole')
    rw [hseen, hbefore]
  | released leader address hrole hgone =>
    refine iff_of_false (not_followsZero rfl) ?_
    rintro ⟨⟨leader', address', p, hrole', hseen, -⟩, hkept⟩
    obtain ⟨rfl, -⟩ := Role.follower.inj (hrole.symm.trans hrole')
    exact hkept ⟨leader, address, p, hrole, hseen, (find?_age_eq_none_iff hseen).mp hgone⟩

/-- A leader without a priority is one that announced this just now, or one from before that
nothing released. -/
theorem followsZero_step_iff
    (hother : ∀ leader address, a.role = .follower leader address → leader ≠ a.config.device) :
    (a.step e).FollowsZero ↔ a.Renounces e ∨ a.FollowsZero ∧ ¬ a.Releases e := by
  cases e with
  | receive source b now => exact followsZero_receive_iff hother
  | tick now => exact followsZero_tick_iff.trans (or_iff_right id).symm

/-- The leader of an agent as the agent observes it is what its last beacon said. If the leader
has a priority, the agent reaches it where it is. -/
theorem leader_observed_run {started : Instant}
    (hrole : ((start config started).run history).role = .follower leader address) :
    ∃ source b t later, LastBeacon history leader source b t later ∧ b.isDrop = false ∧
      ((start config started).run history).observed.find? leader = some ⟨b.priority, source, t⟩ ∧
      (0 < b.priority → source = address) := by
  obtain ⟨p, hp⟩ := observesLeader_run config started history leader address hrole
  obtain ⟨-, source, b, t, later, hlast, hkeep, rfl, -⟩ := (find?_run_iff ..).mp hp
  exact ⟨source, b, t, later, hlast, hkeep, hp, (stood_run _ _ _ hrole).address_eq hlast⟩

/-- It is the priority alone that shows that a leader renounced: one that has a priority is reached
where it is. -/
theorem renounced_run_iff {started : Instant} :
    ((start config started).run history).Renounced ↔
      ((start config started).run history).FollowsZero := by
  constructor
  · rintro ⟨leader, address, p, hrole, hseen, hrenounced⟩
    refine ⟨leader, address, p, hrole, hseen, ?_⟩
    obtain ⟨source, b, t, later, -, -, hb, haddress⟩ := leader_observed_run hrole
    obtain rfl := Option.some.inj (hseen.symm.trans hb)
    refine Decidable.byContradiction fun hne => ?_
    have hpos : 0 < b.priority := UInt16.pos_iff_ne_zero.mpr hne
    exact hrenounced.elim hne fun h => h (haddress hpos)
  · rintro ⟨leader, address, p, hrole, hseen, hzero⟩
    exact ⟨leader, address, p, hrole, hseen, .inl hzero⟩

/-- A follower reaches its leader where the leader last stood for election, and observes it as its
last beacon said; so it follows a leader that renounced iff that beacon has priority zero. Nothing
but such a beacon of the leader leads there. It lasts until another device, or the leader, announces
a priority, or the leader takes itself out of the election or has been silent for too long. -/
theorem renounced_leader_kept_until_released (config : ElectionConfig) (started : Instant)
    (history : List AgentEvent) :
    let a := (start config started).run history
    (∀ leader address, a.role = .follower leader address →
      Stood history leader address ∧
      ∃ source b t later, LastBeacon history leader source b t later ∧ b.isDrop = false ∧
        a.observed.find? leader = some ⟨b.priority, source, t⟩ ∧
        (0 < b.priority → source = address) ∧ (a.Renounced ↔ b.priority = 0)) ∧
    ∀ e, ((start config started).run (history ++ [e])).Renounced ↔
      a.Renounces e ∨ a.Renounced ∧ ¬ a.Releases e := by
  intro a
  refine ⟨fun leader address hrole => ⟨stood_run config started history hrole, ?_⟩, fun e => ?_⟩
  · obtain ⟨source, b, t, later, hlast, hkeep, hseen, haddress⟩ := leader_observed_run hrole
    refine ⟨source, b, t, later, hlast, hkeep, hseen, haddress, ?_⟩
    rw [renounced_run_iff]
    constructor
    · intro hfollows
      refine Decidable.byContradiction fun hne => ?_
      exact not_followsZero_of_pos hrole hseen (UInt16.pos_iff_ne_zero.mpr hne) hfollows
    · intro hzero
      exact ⟨leader, address, _, hrole, hseen, hzero⟩
  · rw [renounced_run_iff, renounced_run_iff, run_append_singleton]
    refine followsZero_step_iff fun leader address hrole => ?_
    rw [config_run]
    exact leader_ne_of_run hrole

end

/-- A device of priority 5 follows one of priority 9, which then announces priority zero from
elsewhere. -/
theorem renouncing_leader_still_followed :
    let history : List AgentEvent :=
      [.receive (.ofOctets 10 0 0 2) (Beacon.new 2 9 0 false) 0, .tick 3000000,
        .receive (.ofOctets 10 0 0 7) (Beacon.new 2 0 0 false) 3100000]
    let a := (start { device := 1, priority := 5 } 0).run history
    a.role = .follower 2 (.ofOctets 10 0 0 2) ∧
      a.observed.find? 2 = some ⟨0, .ofOctets 10 0 0 7, 3100000⟩ ∧ a.Renounced := by
  intro history a
  have hrole : a.role = .follower 2 (.ofOctets 10 0 0 2) := by decide
  have hseen : a.observed.find? 2 = some ⟨0, .ofOctets 10 0 0 7, 3100000⟩ := by decide
  exact ⟨hrole, hseen, _, _, _, hrole, hseen, .inl rfl⟩

end Agent

end LinkFabric
