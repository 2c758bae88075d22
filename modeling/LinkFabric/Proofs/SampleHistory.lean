import LinkFabric.Proofs.Aggregation
import LinkFabric.Proofs.Moments
import Mathlib.Data.List.DropRight

/-!
# Samples are the recent history

Two rules make samples go: a new one pushes out the earliest of its key when there are too
many, and a fanout drops those that have become too old. They act at different calls and do
not know of each other. As long as time does not go back, what they leave is always an end of
the history: of the last samples that came for a key, those that no fanout since has found
too old.

Main results:

* `filter_rtake`: where those with a property come last, cutting and filtering commute.
* `Aggregator.buffer_ingest_self`, `Aggregator.current_append_singleton`: one call more, for the
  samples that are kept and for the history.
* `Aggregator.buffer_run`: the samples kept after a run.
* `Aggregator.samples_are_recent_history`: the contents in terms of the history, with clearing.
-/

namespace LinkFabric

/-! ## Ends of lists -/

/-- Where those with a property come last, the last ones that have it are, of those that have
it, the last. -/
theorem filter_rtake {α : Type} {p : α → Bool} {l : List α}
    (h : l.Pairwise fun x y => p x = true → p y = true) (n : Nat) :
    (l.rtake n).filter p = (l.filter p).rtake n := by
  induction l using List.reverseRecOn generalizing n with
  | nil => simp
  | append_singleton l x ih =>
    obtain ⟨hinit, -, hlast⟩ := List.pairwise_append.mp h
    cases n with
    | zero => simp
    | succ n =>
      rw [List.rtake_concat_succ, List.filter_append, List.filter_append, ih hinit]
      by_cases hx : p x = true
      · rw [List.filter_singleton, hx, cond_true, List.rtake_concat_succ]
      · -- The last one does not have the property, so none has.
        have hnone : l.filter p = [] := List.filter_eq_nil_iff.mpr fun y hy hp =>
          hx (hlast y hy x (List.mem_singleton_self x) hp)
        simp [hnone, hx]

theorem rtake_rtake_append_singleton {α : Type} (l : List α) (x : α) (n : Nat) :
    (l.rtake n ++ [x]).rtake n = (l ++ [x]).rtake n := by
  cases n with
  | zero => simp
  | succ n => simp [List.rtake_eq_reverse_take_reverse, List.take_take]

namespace Aggregator

/-! ## One call -/

/-- A sample comes last, and the earliest makes room for it if there are too many. -/
theorem buffer_ingest_self {a : Aggregator} {key : Key}
    (h : (a.buffer key).length ≤ maxSamples) (value : Value) (now : Instant) :
    (a.ingest key value now).buffer key =
      (a.buffer key ++ [Sample.mk value now]).rtake maxSamples := by
  have hdrop : (if maxSamples ≤ (a.buffer key).length then (a.buffer key).drop 1
      else a.buffer key) = (a.buffer key).rtake (maxSamples - 1) := by
    rw [List.rtake]
    split_ifs with hfull
    · rw [Nat.le_antisymm h hfull]
      rfl
    · rw [show (a.buffer key).length - (maxSamples - 1) = 0 by omega, List.drop_zero]
  rw [show maxSamples = maxSamples - 1 + 1 from rfl, List.rtake_concat_succ, ← hdrop]
  simp only [buffer, ingest, SortedMap.find?_insert_self, Option.getD_some]

theorem buffer_ingest_of_ne {key key' : Key} (h : key ≠ key') (a : Aggregator) (value : Value)
    (now : Instant) : (a.ingest key value now).buffer key' = a.buffer key' := by
  rw [buffer, ingest, SortedMap.find?_insert_of_ne _ _ h]
  rfl

theorem run_append_singleton (a : Aggregator) (calls : List Call) (call : Call) :
    a.run (calls ++ [call]) = (a.run calls).perform call := by
  rw [run, List.foldl_append]
  rfl

/-! ## Arrivals -/

/-- The sample that a call brings for a key. -/
def Call.sample? (key : Key) : Call → Option Sample
  | .ingest key' value now => if key' = key then some ⟨value, now⟩ else none
  | .fanout _ _ => none

/-- Whether a call finds a sample too old. -/
def Call.outdates (s : Sample) : Call → Bool
  | .ingest _ _ _ => false
  | .fanout _ now => decide (Span.ofMs 30000 < now.since s.time)

/-- The samples that came for a key, in order, each with the calls since. -/
def arrivals (key : Key) (calls : List Call) : List (Sample × List Call) :=
  brought (fun _ call => call.sample? key) calls

/-- Whether no call since has found a sample too old. -/
def isCurrent (p : Sample × List Call) : Bool := p.2.all fun call => !call.outdates p.1

/-- Of the last 256 samples that came for a key, those that no call since has found too old. -/
def remaining (key : Key) (calls : List Call) : List Sample :=
  (((arrivals key calls).rtake 256).filter isCurrent).map (·.1)

/-- The samples that came for a key and that no call since has found too old. -/
def current (key : Key) (calls : List Call) : List Sample :=
  ((arrivals key calls).filter isCurrent).map (·.1)

theorem current_append_singleton (key : Key) (calls : List Call) (call : Call) :
    current key (calls ++ [call]) =
      (current key calls).filter (fun s => !call.outdates s) ++ (call.sample? key).toList := by
  rw [current, arrivals, brought_append_singleton, List.filter_append, List.map_append]
  congr 1
  · rw [current, arrivals, List.filter_map, List.map_map, List.filter_map, List.filter_filter]
    refine congrArg (List.map _) (List.filter_congr fun p _ => ?_)
    simp [isCurrent, Bool.and_comm]
  · cases call.sample? key <;> rfl

theorem Call.time_of_sample? {key : Key} {call : Call} {s : Sample}
    (h : call.sample? key = some s) : s.time = call.time := by
  cases call with
  | ingest key' value now =>
    rw [Call.sample?, Option.ite_none_right_eq_some] at h
    rw [← Option.some.inj h.2]
    rfl
  | fanout registry now => cases h

/-- Of two arrivals, the earlier has the earlier sample, and all calls since the later one. -/
theorem pairwise_arrivals (key : Key) {calls : List Call}
    (h : (calls.map Call.time).Pairwise (· ≤ ·)) :
    (arrivals key calls).Pairwise fun p q => p.1.time ≤ q.1.time ∧ q.2 <:+ p.2 := by
  refine (pairwise_moments (List.pairwise_map.mp h)).filterMap _ ?_
  intro m m' hm p hp p' hp'
  obtain ⟨s, hs, rfl⟩ := Option.map_eq_some_iff.mp hp
  obtain ⟨s', hs', rfl⟩ := Option.map_eq_some_iff.mp hp'
  refine ⟨?_, hm.2⟩
  rw [Call.time_of_sample? hs, Call.time_of_sample? hs']
  exact hm.1

theorem Call.not_outdates_fanout (registry : Registry) (now : Instant) (s : Sample) :
    (!(Call.fanout registry now).outdates s) = decide (now.since s.time ≤ horizon) := by
  rw [Call.outdates, ← decide_not, decide_eq_decide, Nat.not_lt]
  rfl

/-- A call that does not find a sample too old does not find the later ones too old either. -/
theorem Call.not_outdates_of_le (call : Call) {s s' : Sample} (h : s.time ≤ s'.time)
    (hs : (!call.outdates s) = true) : (!call.outdates s') = true := by
  cases call with
  | ingest key value now => rfl
  | fanout registry now =>
    rw [Call.not_outdates_fanout, decide_eq_true_eq] at hs ⊢
    exact Nat.le_trans (Instant.since_le_since h now) hs

theorem pairwise_current (key : Key) {calls : List Call}
    (h : (calls.map Call.time).Pairwise (· ≤ ·)) :
    (current key calls).Pairwise fun s s' => s.time ≤ s'.time :=
  List.pairwise_map.mpr (((pairwise_arrivals key h).filter _).imp And.left)

/-- Whether the last samples are taken before or after the outdated ones are left out does not
matter, since outdated samples come first. -/
theorem remaining_eq_rtake (key : Key) {calls : List Call}
    (h : (calls.map Call.time).Pairwise (· ≤ ·)) :
    remaining key calls = (current key calls).rtake maxSamples := by
  have hlast : (arrivals key calls).Pairwise fun p q =>
      isCurrent p = true → isCurrent q = true := by
    refine (pairwise_arrivals key h).imp fun {p q} hpq hp => ?_
    refine List.all_eq_true.mpr fun call hcall => ?_
    exact call.not_outdates_of_le hpq.1 (List.all_eq_true.mp hp call (hpq.2.subset hcall))
  rw [remaining, filter_rtake hlast, current, List.rtake, List.map_drop, List.rtake,
    List.length_map]
  rfl

theorem length_remaining_le (key : Key) (calls : List Call) :
    (remaining key calls).length ≤ 256 := by
  rw [remaining, List.length_map]
  refine Nat.le_trans (List.length_filter_le _ _) ?_
  rw [List.rtake, List.length_drop]
  omega

/-- The samples kept after a run are those that the history leaves. -/
theorem buffer_run (key : Key) {calls : List Call}
    (h : (calls.map Call.time).Pairwise (· ≤ ·)) :
    (empty.run calls).buffer key = remaining key calls := by
  induction calls using List.reverseRecOn with
  | nil =>
    show [] = ((List.rtake [] 256).filter isCurrent).map (·.1)
    rw [List.rtake_nil]
    rfl
  | append_singleton calls call ih =>
    have hcalls : (calls.map Call.time).Pairwise (· ≤ ·) := by
      rw [List.map_append] at h
      exact (List.pairwise_append.mp h).1
    rw [run_append_singleton, remaining_eq_rtake key h, current_append_singleton]
    have hbuffer := ih hcalls
    cases call with
    | ingest key' value now =>
      by_cases hkey : key' = key
      · subst hkey
        rw [perform, buffer_ingest_self (by rw [hbuffer]; exact length_remaining_le _ _), hbuffer,
          remaining_eq_rtake _ hcalls, rtake_rtake_append_singleton]
        simp [Call.sample?, Call.outdates]
      · rw [perform, buffer_ingest_of_ne hkey, hbuffer, remaining_eq_rtake _ hcalls]
        simp [Call.sample?, Call.outdates, hkey]
    | fanout registry now =>
      have hlast := (pairwise_current key hcalls).imp fun {s s'} hle hs =>
        (Call.fanout registry now).not_outdates_of_le hle hs
      simp only [perform, buffer_fanout, ← Call.not_outdates_fanout registry]
      rw [hbuffer, remaining_eq_rtake _ hcalls, filter_rtake hlast]
      exact congrArg (List.rtake · maxSamples) (List.append_nil _).symm

/-- No key has an empty buffer. -/
def Tidy (a : Aggregator) : Prop := ∀ key, a.samples.find? key ≠ some []

theorem Tidy.perform {a : Aggregator} (h : a.Tidy) (call : Call) : (a.perform call).Tidy := by
  intro key
  cases call with
  | ingest key' value now =>
    by_cases hkey : key' = key
    · subst hkey
      simp [Aggregator.perform, ingest]
    · rw [Aggregator.perform, ingest, SortedMap.find?_insert_of_ne _ _ hkey]
      exact h key
  | fanout registry now =>
    simp only [Aggregator.perform, fanout, prune, SortedMap.find?_filterMap, ne_eq,
      Option.bind_eq_some_iff, Option.ite_none_left_eq_some, Option.some.injEq]
    rintro ⟨held, -, hne, heq⟩
    exact hne (List.isEmpty_iff.mpr heq)

theorem tidy_run (calls : List Call) : (empty.run calls).Tidy :=
  List.foldlRecOn (motive := Tidy) calls Aggregator.perform (fun _ h => nomatch h)
    fun _ h call _ => h.perform call

theorem Tidy.find?_eq_none_iff {a : Aggregator} (h : a.Tidy) {key : Key} :
    a.samples.find? key = none ↔ a.buffer key = [] := by
  rw [buffer]
  cases hfind : a.samples.find? key with
  | none => simp
  | some held =>
    have hne : held ≠ [] := fun heq => h key (heq ▸ hfind)
    simp [hne]

/-! ## Runs with clearing -/

/-- What happens to an aggregator: a call, or that all is cleared. -/
inductive Event where
  | call (call : Call)
  | clear

/-- The call of an event. -/
def Event.call? : Event → Option Call
  | .call c => some c
  | .clear => none

/-- The time of an event; clearing has none. -/
def Event.time? (e : Event) : Option Instant := e.call?.map Call.time

/-- The aggregator after an event. -/
def handle (a : Aggregator) : Event → Aggregator
  | .call call => a.perform call
  | .clear => .empty

/-- The aggregator after a run of events. -/
def handleAll (a : Aggregator) (events : List Event) : Aggregator := events.foldl handle a

theorem handleAll_append_singleton (a : Aggregator) (events : List Event) (e : Event) :
    a.handleAll (events ++ [e]) = (a.handleAll events).handle e := by
  rw [handleAll, List.foldl_append]
  rfl

/-- The calls since the last clearing. -/
def sinceClear (events : List Event) : List Call :=
  (events.rtakeWhile fun e => e.call?.isSome).filterMap Event.call?

/-- Only the calls since the last clearing matter. -/
theorem handleAll_empty (events : List Event) :
    empty.handleAll events = empty.run (sinceClear events) := by
  induction events using List.reverseRecOn with
  | nil => rfl
  | append_singleton events e ih =>
    rw [handleAll_append_singleton, sinceClear]
    cases e with
    | call call =>
      rw [List.rtakeWhile_concat_pos _ _ _ rfl, List.filterMap_append, ← sinceClear, handle, ih]
      exact (run_append_singleton _ _ _).symm
    | clear =>
      rw [List.rtakeWhile_concat_neg _ _ _ (by simp [Event.call?])]
      rfl

theorem pairwise_sinceClear {events : List Event}
    (h : (events.filterMap Event.time?).Pairwise (· ≤ ·)) :
    ((sinceClear events).map Call.time).Pairwise (· ≤ ·) := by
  rw [sinceClear, List.map_filterMap]
  exact h.sublist ((List.rtakeWhile_suffix _ _).sublist.filterMap _)

/-- After any calls and clearings at times that do not go back, the samples kept for a key are,
in order, those of the last 256 that came since the last clearing that no fanout since has
found older than 30000 ms. There are as many pending, and the key is absent if there are
none. Whatever fanout comes next, the times kept after it are of links of its registry. -/
theorem samples_are_recent_history (events : List Event)
    (hordered : (events.filterMap Event.time?).Pairwise (· ≤ ·)) (key : Key) :
    let a := empty.handleAll events
    let kept := remaining key (sinceClear events)
    a.buffer key = kept ∧
    a.pending key = kept.length ∧ kept.length ≤ 256 ∧
    (a.samples.find? key = none ↔ kept = []) ∧
    ∀ registry now id,
      (a.handle (.call (.fanout registry now))).lastFanout.contains id = true →
        registry.contains id = true := by
  intro a kept
  have ha : a = empty.run (sinceClear events) := handleAll_empty events
  have hbuffer : a.buffer key = kept := by
    rw [ha]
    exact buffer_run key (pairwise_sinceClear hordered)
  refine ⟨hbuffer, congrArg List.length hbuffer, length_remaining_le _ _, ?_, ?_⟩
  · rw [← hbuffer, ha]
    exact (tidy_run _).find?_eq_none_iff
  · intro registry now id hid
    rw [handle, perform, SortedMap.contains, find?_lastFanout_fanout] at hid
    by_contra hgone
    rw [if_neg hgone] at hid
    cases hid

/-- After a clearing, 300 samples come for a key, ten in a second, and 40 s after the first a
fanout. The first 44 were pushed out, and the next 56 are too old. -/
theorem two_hundred_of_three_hundred_left :
    let samples : List Event := (List.range 300).map fun i =>
      .call (.ingest 1 (.ofWord32 (UInt32.ofNat i)) (Span.ofMs (100 * i)))
    let events : List Event := .call (.ingest 1 (.ofWord32 7) 0) :: .clear ::
      (samples ++ [.call (.fanout (Registry.empty {}) (Span.ofSeconds 40))])
    let a := empty.handleAll events
    a.pending 1 = 200 ∧
    a.buffer 1 = (List.range' 100 200).map fun i =>
      ⟨.ofWord32 (UInt32.ofNat i), Span.ofMs (100 * i)⟩ := by
  intro samples events a
  have hordered : (events.filterMap Event.time?).Pairwise (· ≤ ·) :=
    List.isChain_iff_pairwise.mp (by decide +kernel)
  have hkept : remaining 1 (sinceClear events) = (List.range' 100 200).map fun i =>
      ⟨.ofWord32 (UInt32.ofNat i), Span.ofMs (100 * i)⟩ := by decide +kernel
  obtain ⟨hbuffer, hpending, -⟩ := samples_are_recent_history events hordered 1
  rw [hkept] at hbuffer hpending
  exact ⟨hpending, hbuffer⟩

end Aggregator

end LinkFabric
