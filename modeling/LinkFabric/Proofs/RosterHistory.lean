import LinkFabric.Proofs.FanoutRouting

/-!
# The roster knows who was heard

Heartbeats come from many nodes, cycles end in between, and a full roster turns new nodes
away until an eviction makes room. Whether a heartbeat counts thus depends on all the other
nodes. Once it is known which ones counted, each node stands for itself: it is a follower as
long as its last one is not too many cycles old.

Main results:

* `Roster.lastHeard_append_singleton`: what one more call does to the age of a heartbeat.
* `Roster.find?_run_iff`: the followers after a run are those that were heard in time.
* `Roster.bounded_run`: no run exceeds the limit.
* `Roster.followers_follow_heartbeats`: the contents of a roster in terms of its history.
-/

namespace LinkFabric

namespace Roster

/-! ## One call -/

theorem heartbeat_eq_error_iff {r : Roster} {address : Address} {h : Heartbeat}
    {cause : AdmissionError} :
    r.heartbeat address h = .error cause ↔
      cause = .rosterFull address r.limit ∧ r.find? address = none ∧ r.limit ≤ r.size := by
  rw [heartbeat, SortedMap.contains, find?, size]
  cases hfind : r.followers.find? address with
  | some f => simp
  | none =>
    by_cases hfull : r.limit ≤ r.followers.size
    · simp [hfull, eq_comm]
    · simp [hfull]

/-- The evicted followers are those that have no cycle left after this one. -/
theorem mem_tick {r : Roster} {address : Address} :
    address ∈ r.tick.2 ↔ ∃ f, r.find? address = some f ∧ f.timeout ≤ 1 := by
  simp [tick, SortedMap.mem_keys_iff, SortedMap.find?_filter, Option.filter_eq_some_iff, find?]

/-- A roster has the given limit and keeps to it. -/
def Bounded (limit : Nat) (r : Roster) : Prop := r.limit = limit ∧ r.size ≤ limit

theorem Bounded.perform {limit : Nat} {r : Roster} (hr : r.Bounded limit) (call : Call) :
    (r.perform call).Bounded limit := by
  obtain ⟨hlimit, hsize⟩ := hr
  cases call with
  | heartbeat address h =>
    rcases r.heartbeat_cases address h with ⟨_, hsame⟩ | ⟨_, hroom, hafter⟩
    · rw [hsame]
      exact ⟨hlimit, hsize⟩
    · rw [hafter]
      refine ⟨hlimit, ?_⟩
      rcases hroom with hknown | hroom
      · exact Nat.le_trans (Nat.le_of_eq (SortedMap.size_insert_of_contains hknown _)) hsize
      · exact Nat.le_trans (r.followers.size_insert_le _ _) (hlimit ▸ hroom)
  | tick => exact ⟨hlimit, Nat.le_trans (List.length_filterMap_le _ _) hsize⟩
  | clear => exact ⟨hlimit, Nat.zero_le _⟩

theorem bounded_run (limit : Nat) (calls : List Call) :
    ((empty limit).run calls).Bounded limit :=
  List.foldlRecOn (motive := Bounded limit) calls Roster.perform ⟨rfl, Nat.zero_le _⟩
    fun _ h call _ => h.perform call

/-! ## The calls that count -/

/-- The calls of a run that are carried out. -/
def accepted (r : Roster) : List Call → List Call
  | [] => []
  | call :: calls => [call].filter r.accepts ++ (r.perform call).accepted calls

theorem accepted_append_singleton (r : Roster) (calls : List Call) (call : Call) :
    r.accepted (calls ++ [call]) = r.accepted calls ++ [call].filter (r.run calls).accepts := by
  induction calls generalizing r with
  | nil => exact List.append_nil _
  | cons first calls ih =>
    rw [List.cons_append, accepted, ih, accepted, List.append_assoc]
    rfl

/-- Whether a call ends a cycle. -/
def Call.isTick : Call → Bool
  | .tick => true
  | _ => false

/-- The last heartbeat from an address is `h`, it came `age` cycles ago, and the roster was not
cleared since. -/
def LastHeard (log : List Call) (address : Address) (h : Heartbeat) (age : Nat) : Prop :=
  ∃ before after, log = before ++ .heartbeat address h :: after ∧
    (∀ h', .heartbeat address h' ∉ after) ∧ .clear ∉ after ∧ after.countP Call.isTick = age

section

variable {log : List Call} {address : Address} {h : Heartbeat} {age : Nat}

theorem not_lastHeard_nil : ¬ LastHeard [] address h age := by
  rintro ⟨before, after, heq, _⟩
  simp at heq

/-- A heartbeat is the last one, or it was the last one before and the call is neither a
heartbeat from the same address nor a clearing. -/
theorem lastHeard_append_singleton {call : Call} :
    LastHeard (log ++ [call]) address h age ↔
      call = .heartbeat address h ∧ age = 0 ∨
        (∀ h', call ≠ .heartbeat address h') ∧ call ≠ .clear ∧
          ∃ a, LastHeard log address h a ∧ age = a + [call].countP Call.isTick := by
  unfold LastHeard
  rw [exists_cut_append_singleton]
  refine or_congr (by simp [eq_comm]) ?_
  simp only [List.mem_append, List.mem_singleton, not_or, List.countP_append, forall_and]
  constructor
  · rintro ⟨before, after, hlog, ⟨hafter, hheard⟩, ⟨hcleared, hclear⟩, hage⟩
    exact ⟨fun h' => Ne.symm (hheard h'), Ne.symm hclear, _,
      ⟨before, after, hlog, hafter, hcleared, rfl⟩, hage.symm⟩
  · rintro ⟨hheard, hclear, _, ⟨before, after, hlog, hafter, hcleared, rfl⟩, hage⟩
    exact ⟨before, after, hlog, ⟨hafter, fun h' => Ne.symm (hheard h')⟩,
      ⟨hcleared, Ne.symm hclear⟩, hage.symm⟩

theorem lastHeard_heartbeat_self {h' : Heartbeat} :
    LastHeard (log ++ [.heartbeat address h']) address h age ↔ h' = h ∧ age = 0 := by
  simp [lastHeard_append_singleton]

theorem lastHeard_heartbeat_of_ne {other : Address} {h' : Heartbeat} (hne : other ≠ address) :
    LastHeard (log ++ [.heartbeat other h']) address h age ↔ LastHeard log address h age := by
  simp [lastHeard_append_singleton, hne, Call.isTick]

theorem lastHeard_tick :
    LastHeard (log ++ [.tick]) address h age ↔ ∃ a, LastHeard log address h a ∧ age = a + 1 := by
  simp [lastHeard_append_singleton, Call.isTick]

theorem not_lastHeard_clear : ¬ LastHeard (log ++ [.clear]) address h age := by
  simp [lastHeard_append_singleton]

end

/-! ## Followers -/

/-- The follower that a heartbeat describes after some cycles. -/
def heard (address : Address) (h : Heartbeat) (age : Nat) : Follower :=
  { Follower.new address h.tags h.serviceFlags with timeout := Follower.fullTimeout - age }

/-- A follower is at an address iff its last heartbeat that counted is young enough, and it is
as this heartbeat describes it. -/
theorem find?_run_iff (limit : Nat) (calls : List Call) {address : Address} {f : Follower} :
    ((empty limit).run calls).find? address = some f ↔
      ∃ h age, LastHeard ((empty limit).accepted calls) address h age ∧
        age < Follower.fullTimeout ∧ f = heard address h age := by
  induction calls using List.reverseRecOn generalizing f with
  | nil =>
    refine iff_of_false (fun hf => by cases hf) ?_
    rintro ⟨_, _, hheard, _⟩
    exact not_lastHeard_nil hheard
  | append_singleton calls call ih =>
    have hrun : (empty limit).run (calls ++ [call]) =
        ((empty limit).run calls).perform call := by
      rw [run, List.foldl_append]
      rfl
    rw [hrun, accepted_append_singleton]
    generalize (empty limit).run calls = r at ih ⊢
    generalize (empty limit).accepted calls = log at ih ⊢
    cases call with
    | heartbeat other h =>
      rcases r.heartbeat_cases other h with ⟨hrefused, hsame⟩ | ⟨haccepted, _, hafter⟩
      · rw [hsame, List.filter_singleton, hrefused, cond_false, List.append_nil, ih]
      · rw [hafter, List.filter_singleton, haccepted, cond_true, find?]
        by_cases hother : other = address
        · subst hother
          simp only [SortedMap.find?_insert_self, lastHeard_heartbeat_self, Option.some.injEq]
          constructor
          · rintro rfl
            exact ⟨h, 0, ⟨rfl, rfl⟩, by decide, rfl⟩
          · rintro ⟨_, _, ⟨rfl, rfl⟩, _, rfl⟩
            rfl
        · simp only [SortedMap.find?_insert_of_ne _ _ hother, lastHeard_heartbeat_of_ne hother]
          exact ih
    | tick =>
      simp only [perform, find?_tick, accepts, List.filter_singleton, cond_true, lastHeard_tick,
        ih]
      constructor
      · rintro ⟨_, ⟨h, age, hheard, _, rfl⟩, hleft, rfl⟩
        -- More than one cycle was left, so the heartbeat may age by one.
        have hage : age + 1 < Follower.fullTimeout := by
          simp only [heard] at hleft
          omega
        exact ⟨h, age + 1, ⟨age, hheard, rfl⟩, hage, by simp [heard, Nat.sub_sub]⟩
      · rintro ⟨h, _, ⟨age, hheard, rfl⟩, hage, rfl⟩
        refine ⟨_, ⟨h, age, hheard, by omega, rfl⟩, ?_, by simp [heard, Nat.sub_sub]⟩
        simp only [heard]
        omega
    | clear =>
      refine iff_of_false (fun hf => by cases hf) ?_
      rintro ⟨_, _, hheard, _⟩
      exact not_lastHeard_clear hheard

/-- After any run of calls, the follower at an address is there iff fewer than 5 cycles ended
since the last heartbeat from there that was accepted, with no clearing since. It has the
first 8 tags other than zero and the service flags of that heartbeat, and the cycles since
then are missing from its 5. The followers keep to the limit. From here on, a heartbeat is
refused iff its address has no follower and the roster is full, and then changes nothing; and
the end of a cycle returns, in ascending order, the addresses for which it is the fifth since
their last accepted heartbeat. -/
theorem followers_follow_heartbeats (limit : Nat) (calls : List Call) :
    let r := (empty limit).run calls
    let log := (empty limit).accepted calls
    (∀ address f, r.find? address = some f ↔
      ∃ h age, LastHeard log address h age ∧ age < 5 ∧
        f = ⟨address, (h.tags.filter (· ≠ 0)).take 8, h.serviceFlags, 5 - age⟩) ∧
    r.size ≤ limit ∧
    (∀ address h cause, r.heartbeat address h = .error cause ↔
      cause = .rosterFull address limit ∧ r.find? address = none ∧ r.size = limit) ∧
    (∀ address h cause, r.heartbeat address h = .error cause →
      r.perform (.heartbeat address h) = r) ∧
    r.tick.2.Pairwise (fun a b => Ranked.rank a < Ranked.rank b) ∧
    ∀ address, address ∈ r.tick.2 ↔ ∃ h, LastHeard (log ++ [.tick]) address h 5 := by
  intro r log
  obtain ⟨hlimit, hsize⟩ : r.Bounded limit := bounded_run limit calls
  refine ⟨fun address f => find?_run_iff limit calls, hsize, ?_, ?_, ?_, ?_⟩
  · intro address h cause
    have hfull : limit ≤ r.size ↔ r.size = limit := by omega
    rw [heartbeat_eq_error_iff, hlimit, hfull]
  · intro address h cause hrefused
    simp only [perform, tryHeartbeat, hrefused]
  · exact List.pairwise_map.mpr (SortedMap.ascending _)
  · intro address
    simp only [mem_tick, lastHeard_tick]
    constructor
    · rintro ⟨f, hf, hlast⟩
      obtain ⟨h, age, hheard, hage, rfl⟩ := (find?_run_iff limit calls).mp hf
      simp only [heard, Follower.fullTimeout] at hage hlast
      exact ⟨h, age, hheard, by omega⟩
    · rintro ⟨h, age, hheard, hage⟩
      obtain rfl : age = 4 := by omega
      exact ⟨_, (find?_run_iff limit calls).mpr ⟨h, 4, hheard, by decide, rfl⟩,
        Nat.le_refl 1⟩

/-- Two nodes fill a roster and a third is turned away. The first is heard again after four
cycles and now has more tags than count; the second is not, so that the fifth cycle evicts it
alone, and there is room for the third. -/
theorem eviction_makes_room :
    let first : Heartbeat := ⟨1, [0, 7, 0, 9]⟩
    let again : Heartbeat := ⟨2, [9, 8, 7, 6, 5, 4, 3, 2, 1]⟩
    let calls := [.heartbeat (.v4 1) first, .heartbeat (.v4 2) first, .tick, .tick, .tick, .tick,
      .heartbeat (.v4 3) first, .heartbeat (.v4 1) again]
    let r := (empty 2).run calls
    r.find? (.v4 1) = some ⟨.v4 1, [9, 8, 7, 6, 5, 4, 3, 2], 2, 5⟩ ∧
    r.heartbeat (.v4 3) first = .error (.rosterFull (.v4 3) 2) ∧
    r.perform (.heartbeat (.v4 3) first) = r ∧
    r.tick.2 = [.v4 2] ∧
    (∃ h, LastHeard ((empty 2).accepted calls ++ [.tick]) (.v4 2) h 5) ∧
    (r.tick.1.perform (.heartbeat (.v4 3) first)).find? (.v4 3) =
      some ⟨.v4 3, [7, 9], 1, 5⟩ := by
  intro first again calls r
  obtain ⟨-, -, hrefused, hunchanged, -, hevicted⟩ := followers_follow_heartbeats 2 calls
  have hfull : r.heartbeat (.v4 3) first = .error (.rosterFull (.v4 3) 2) :=
    (hrefused _ _ _).mpr ⟨rfl, by decide, by decide⟩
  have htick : r.tick.2 = [.v4 2] := by decide
  refine ⟨by decide, hfull, hunchanged _ _ _ hfull, htick, (hevicted _).mp ?_, by decide⟩
  exact htick ▸ List.mem_singleton_self _

end Roster

end LinkFabric
