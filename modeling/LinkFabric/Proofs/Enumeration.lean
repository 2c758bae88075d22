import LinkFabric.Proofs.Agent

/-!
# The order in which peers are gone through

A device that decides the election goes through the devices it heard of, and the order in which
it meets them is nobody's choice. Ranks compare an ascending key and a descending one; still they
are in a strict total order, and different devices never have the same rank. So the best peer is
a matter of the observations alone, and with it everything that an agent does.

Main results:

* `Election.bestPeer_eq_some_iff`: the best peer of any listing is the one that outranks all
  others that may lead.
* `Election.bestPeer_eq_of_perm`: all listings of a map have the same best peer.
* `Agent.tickIn_eq_tick`, `Agent.runIn_eq_run`: ticks and runs that go through peers in any order.
* `best_peer_same_in_every_order`: the order of ranks, the best peer, and ticks in any order.
-/

namespace LinkFabric

theorem Rank.outranks_irrefl (a : Rank) : a.outranks a = false :=
  Rank.not_outranks_iff.mpr (Nat.le_refl _)

/-- Of two different ranks one outranks the other. -/
theorem Rank.outranks_or_outranks_of_ne {a b : Rank} (h : a ≠ b) :
    a.outranks b = true ∨ b.outranks a = true := by
  have hweight : a.weight ≠ b.weight := fun heq => h (eq_of_weight_eq heq)
  rw [outranks_iff, outranks_iff]
  omega

namespace Election

/-! ## The best peer of a map -/

/-- A device that is observed, may lead, and outranks all others that may. -/
structure IsBest (observed : SortedMap DeviceId Peer) (device : DeviceId) (p : Peer) : Prop where
  seen : observed.find? device = some p
  may_lead : 0 < p.priority
  outranks : ∀ device' p', observed.find? device' = some p' → 0 < p'.priority →
    device' ≠ device → (p.rank device).outranks (p'.rank device') = true

variable {observed : SortedMap DeviceId Peer} {l : List (DeviceId × Peer)}

/-- There is at most one best device. -/
theorem IsBest.unique {device device' : DeviceId} {p p' : Peer} (h : IsBest observed device p)
    (h' : IsBest observed device' p') : (device, p) = (device', p') := by
  have hdevice : device = device' := Decidable.byContradiction fun hne =>
    Rank.not_outranks_both (h.outranks device' p' h'.seen h'.may_lead (Ne.symm hne))
      (h'.outranks device p h.seen h.may_lead hne)
  subst hdevice
  rw [Option.some.inj (h.seen.symm.trans h'.seen)]

theorem mem_iff_of_perm (hl : l.Perm observed.entries) {device : DeviceId} {p : Peer} :
    (device, p) ∈ l ↔ observed.find? device = some p :=
  hl.mem_iff.trans (SortedMap.mem_entries_iff _)

theorem bestPeer_eq_none_iff_of_perm (hl : l.Perm observed.entries) :
    bestPeer l = none ↔ ∀ device p, observed.find? device = some p → p.priority = 0 := by
  rw [bestPeer_eq_none_iff, Prod.forall]
  exact forall₂_congr fun device p => by rw [mem_iff_of_perm hl]

theorem isBest_of_bestPeer (hl : l.Perm observed.entries) {device : DeviceId} {p : Peer}
    (h : bestPeer l = some (device, p)) : IsBest observed device p := by
  obtain ⟨hmem, hpos, hmax⟩ := bestPeer_spec h
  refine ⟨(mem_iff_of_perm hl).mp hmem, hpos, fun device' p' hseen _ hne => ?_⟩
  have hless := hmax (device', p') ((mem_iff_of_perm hl).mpr hseen)
  exact (Rank.outranks_or_outranks (Ne.symm hne)).resolve_right (Bool.eq_false_iff.mp hless)

/-- Whatever the listing, the best peer is the device that outranks all others. -/
theorem bestPeer_eq_some_iff (hl : l.Perm observed.entries) {device : DeviceId} {p : Peer} :
    bestPeer l = some (device, p) ↔ IsBest observed device p := by
  refine ⟨isBest_of_bestPeer hl, fun hbest => ?_⟩
  cases hfound : bestPeer l with
  | none =>
    have hzero := (bestPeer_eq_none_iff_of_perm hl).mp hfound device p hbest.seen
    exact absurd hbest.may_lead (by simp [hzero])
  | some found => exact congrArg some ((isBest_of_bestPeer hl hfound).unique hbest)

theorem bestPeer_eq_of_perm (hl : l.Perm observed.entries) :
    bestPeer l = bestPeer observed.entries := by
  refine Option.ext fun best => ?_
  rw [bestPeer_eq_some_iff hl, bestPeer_eq_some_iff (.refl _)]

end Election

/-! ## Ticks and runs in any order -/

/-- A way to go through maps: each pair of a map comes up once. -/
structure Enumeration (κ α : Type) [Ranked κ] where
  list : SortedMap κ α → List (κ × α)
  perm : ∀ m, (list m).Perm m.entries

/-- Through the keys from the lowest to the highest. -/
def Enumeration.ascending {κ α : Type} [Ranked κ] : Enumeration κ α :=
  ⟨SortedMap.entries, fun _ => .refl _⟩

namespace Agent

/-- A tick that goes through the devices heard of in an order of its own. -/
def tickIn (order : Enumeration DeviceId Peer) (a : Agent) (now : Instant) : Agent :=
  let a := a.age now
  match a.role with
  | .follower leader _ => if a.observed.contains leader then a else a.becomeCandidate now
  | .candidate =>
    if a.config.window ≤ now.since a.candidateSince then a.decideAmong (order.list a.observed)
    else a
  | .leader => a

theorem tickIn_ascending (a : Agent) (now : Instant) : a.tickIn .ascending now = a.tick now := rfl

theorem decideAmong_eq_of_perm {a : Agent} {l : List (DeviceId × Peer)}
    (hl : l.Perm a.observed.entries) : a.decideAmong l = a.decideAmong a.observed.entries := by
  rw [decideAmong, decideAmong, Election.bestPeer_eq_of_perm hl]

theorem tickIn_eq_tick (order : Enumeration DeviceId Peer) (a : Agent) (now : Instant) :
    a.tickIn order now = a.tick now := by
  rw [← tickIn_ascending, tickIn, tickIn, decideAmong_eq_of_perm (order.perm _)]
  rfl

/-- What an agent makes of an event, if it goes through the devices in some order. -/
def stepIn (order : Enumeration DeviceId Peer) (a : Agent) : AgentEvent → Agent
  | .receive source b now => (a.receive source b now).1
  | .tick now => a.tickIn order now

/-- What an agent makes of events, for each of which there is an order of its own. -/
def runIn (a : Agent) (events : List (Enumeration DeviceId Peer × AgentEvent)) : Agent :=
  events.foldl (fun a e => a.stepIn e.1 e.2) a

theorem stepIn_eq_step (order : Enumeration DeviceId Peer) (a : Agent) (e : AgentEvent) :
    a.stepIn order e = a.step e := by
  cases e with
  | receive source b now => rfl
  | tick now => exact tickIn_eq_tick order a now

theorem runIn_eq_run (a : Agent) (events : List (Enumeration DeviceId Peer × AgentEvent)) :
    a.runIn events = a.run (events.map (·.2)) := by
  rw [runIn, run, List.foldl_map]
  simp only [stepIn_eq_step]

end Agent

/-- Ranks are in a strict total order. Whatever the order in which the devices of a map are
listed, there is no best peer iff none of them may lead, and otherwise the best peer is the one
device that may lead and outranks all others that may. So a tick makes the same of an agent in
every order, and so does a run in which each event has an order of its own. -/
theorem best_peer_same_in_every_order :
    ((∀ a : Rank, a.outranks a = false) ∧
      (∀ a b c : Rank, a.outranks b = true → b.outranks c = true → a.outranks c = true) ∧
      ∀ a b : Rank, a ≠ b → a.outranks b = true ∨ b.outranks a = true) ∧
    (∀ (observed : SortedMap DeviceId Peer) (l : List (DeviceId × Peer)),
      l.Perm observed.entries →
      (Election.bestPeer l = none ↔
        ¬ ∃ device p, observed.find? device = some p ∧ 0 < p.priority) ∧
      ((∃ device p, observed.find? device = some p ∧ 0 < p.priority) →
        ∃ device p, Election.bestPeer l = some (device, p) ∧
          Election.IsBest observed device p ∧
          ∀ device' p', Election.IsBest observed device' p' → device' = device ∧ p' = p)) ∧
    ∀ a : Agent,
      (∀ (order : Enumeration DeviceId Peer) (now : Instant), a.tickIn order now = a.tick now) ∧
      ∀ events : List (Enumeration DeviceId Peer × AgentEvent),
        a.runIn events = a.run (events.map (·.2)) := by
  refine ⟨⟨Rank.outranks_irrefl, fun _ _ _ => Rank.outranks_trans,
    fun _ _ => Rank.outranks_or_outranks_of_ne⟩, fun observed l hl => ?_,
    fun a => ⟨fun order now => a.tickIn_eq_tick order now, a.runIn_eq_run⟩⟩
  have hnone : Election.bestPeer l = none ↔
      ¬ ∃ device p, observed.find? device = some p ∧ 0 < p.priority := by
    simp [Election.bestPeer_eq_none_iff_of_perm hl, UInt16.pos_iff_ne_zero]
  refine ⟨hnone, fun hsome => ?_⟩
  cases hfound : Election.bestPeer l with
  | none => exact absurd hsome (hnone.mp hfound)
  | some found =>
    have hbest := Election.isBest_of_bestPeer hl hfound
    exact ⟨found.1, found.2, rfl, hbest,
      fun device' p' hbest' => Prod.mk.inj (hbest'.unique hbest)⟩

/-- Two devices of one priority, one of a lower priority, and one that may not lead. -/
def crowd : SortedMap DeviceId Peer :=
  ⟨[(1, ⟨3, .v4 1, 0⟩), (2, ⟨9, .v4 2, 0⟩), (4, ⟨9, .v4 4, 0⟩), (7, ⟨0, .v4 7, 0⟩)], by decide⟩

theorem tie_goes_to_lower_device_in_every_order :
    let listed : List (DeviceId × Peer) :=
      [(7, ⟨0, .v4 7, 0⟩), (4, ⟨9, .v4 4, 0⟩), (2, ⟨9, .v4 2, 0⟩), (1, ⟨3, .v4 1, 0⟩)]
    let candidate : Agent := { Agent.start ⟨5, 8, 30, 40, 10, 8, 3⟩ 0 with observed := crowd }
    listed.Perm crowd.entries ∧ Election.bestPeer listed = some (2, ⟨9, .v4 2, 0⟩) ∧
      Election.IsBest crowd 2 ⟨9, .v4 2, 0⟩ ∧
      ∀ order, (candidate.tickIn order 30).role = .follower 2 (.v4 2) := by
  intro listed candidate
  have hperm : listed.Perm crowd.entries := by decide
  have hfound : Election.bestPeer listed = some (2, ⟨9, .v4 2, 0⟩) := by decide
  obtain ⟨-, hbest, hticks⟩ := best_peer_same_in_every_order
  obtain ⟨device, p, hfound', hisbest, -⟩ :=
    (hbest crowd listed hperm).2 ⟨4, ⟨9, .v4 4, 0⟩, by decide, by decide⟩
  obtain ⟨rfl, rfl⟩ := Prod.mk.inj (Option.some.inj (hfound.symm.trans hfound'))
  refine ⟨hperm, hfound, hisbest, fun order => ?_⟩
  rw [(hticks candidate).1]
  decide

end LinkFabric
