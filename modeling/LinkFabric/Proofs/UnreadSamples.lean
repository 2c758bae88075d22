import LinkFabric.Proofs.SampleHistory

/-!
# What a link reads after its last value

A link is meant to give the samples that came since it last gave a value. What came since is a
matter of the order of calls, but the aggregator goes by times: it reads the samples that are
later than the last value of the link. Both agree except at one point. A sample that comes
after the value and at the same time is not read, then or ever.

Main results:

* `Aggregator.find?_lastFanout_run`: the time kept for a link is that of its last value.
* `Aggregator.remaining_append`: the samples kept are some that were kept before, and then those
  that came since.
* `Aggregator.reads_all_but_ties`: what a link reads, in terms of the history.
-/

namespace LinkFabric

theorem rtake_append {α : Type} (l₁ l₂ : List α) (n : Nat) :
    (l₁ ++ l₂).rtake n = l₁.rtake (n - l₂.length) ++ l₂.rtake n := by
  simp [List.rtake_eq_reverse_take_reverse, List.take_append]

namespace Aggregator

/-! ## The values of a link -/

/-- The time at which a link gives a value at a call, if it does, after some other calls. -/
def given? (id : LinkId) (before : List Call) : Call → Option Instant
  | .ingest _ _ _ => none
  | .fanout registry now =>
    if ∃ f ∈ ((empty.run before).fanout registry now).2, f.link = id then some now else none

/-- When a link gave values, in order, each time with the calls since. -/
def emissions (id : LinkId) (calls : List Call) : List (Instant × List Call) :=
  brought (given? id) calls

/-- The time kept for a link that stays in the registry is that of its last value. -/
theorem find?_lastFanout_run {id : LinkId} {calls : List Call}
    (h : ∀ registry now, .fanout registry now ∈ calls → registry.contains id = true) :
    (empty.run calls).lastFanout.find? id = (emissions id calls).getLast?.map (·.1) := by
  induction calls using List.reverseRecOn with
  | nil => rfl
  | append_singleton calls call ih =>
    have hcalls := ih fun registry now hmem => h registry now (List.mem_append_left _ hmem)
    rw [run_append_singleton, emissions, brought_append_singleton, List.getLast?_append,
      List.getLast?_map]
    cases call with
    | ingest key value now =>
      rw [perform, ingest, hcalls]
      simp [given?, emissions, Function.comp_def]
    | fanout registry now =>
      rw [perform, find?_lastFanout_fanout, if_pos (h registry now (by simp)), hcalls, given?]
      split_ifs with hgives
      · simp
      · simp [emissions, Function.comp_def]

/-- A value of a link cuts the calls into those before and those since. -/
theorem exists_cut_of_mem_emissions {id : LinkId} {calls since : List Call} {time : Instant}
    (h : (time, since) ∈ emissions id calls) :
    ∃ before registry, calls = before ++ [.fanout registry time] ++ since := by
  obtain ⟨before, call, rfl, hgiven⟩ := mem_brought_iff.mp h
  cases call with
  | ingest key value now => cases hgiven
  | fanout registry now =>
    obtain ⟨-, hnow⟩ := Option.ite_none_right_eq_some.mp hgiven
    obtain rfl := Option.some.inj hnow
    exact ⟨before, registry, by simp⟩

/-! ## The samples since -/

theorem current_append (key : Key) (xs ys : List Call) :
    current key (xs ++ ys) =
      (current key xs).filter (fun s => ys.all fun call => !call.outdates s) ++ current key ys := by
  induction ys using List.reverseRecOn with
  | nil => simp [current, arrivals, brought, moments, momentsFrom]
  | append_singleton ys call ih =>
    rw [← List.append_assoc, current_append_singleton, ih, current_append_singleton,
      List.filter_append, List.filter_filter, List.append_assoc]
    simp [Bool.and_comm]

/-- The samples kept are some that were kept before, and then those that came since. -/
theorem remaining_append (key : Key) {xs ys : List Call}
    (h : ((xs ++ ys).map Call.time).Pairwise (· ≤ ·)) :
    ∃ old, old.Sublist (remaining key xs) ∧ remaining key (xs ++ ys) = old ++ remaining key ys := by
  have hparts := h
  rw [List.map_append] at hparts
  obtain ⟨hxs, hys, -⟩ := List.pairwise_append.mp hparts
  have hlast : (current key xs).Pairwise fun s s' =>
      (ys.all fun call => !call.outdates s) = true →
        (ys.all fun call => !call.outdates s') = true :=
    (pairwise_current key hxs).imp fun hle hs => List.all_eq_true.mpr fun call hcall =>
      call.not_outdates_of_le hle (List.all_eq_true.mp hs call hcall)
  rw [remaining_eq_rtake key h, remaining_eq_rtake key hxs, remaining_eq_rtake key hys,
    current_append, rtake_append, ← filter_rtake hlast]
  -- The new samples leave less room for the old ones, of which some may have become too old.
  refine ⟨_, List.filter_sublist.trans ?_, rfl⟩
  exact List.drop_sublist_drop_left _ (by omega)

theorem exists_call_of_mem_remaining {key : Key} {calls : List Call} {s : Sample}
    (h : s ∈ remaining key calls) : ∃ call ∈ calls, call.time = s.time := by
  obtain ⟨⟨_, after⟩, hp, rfl⟩ := List.mem_map.mp h
  have hmem := List.mem_of_mem_drop (List.mem_of_mem_filter hp)
  obtain ⟨before, call, rfl, hsample⟩ := mem_brought_iff.mp hmem
  exact ⟨call, by simp, (Call.time_of_sample? hsample).symm⟩

/-- After the last value of a link, the samples kept are some that were kept right after it, and
then those that came since. -/
theorem exists_buffer_eq_append {id : LinkId} {calls since : List Call} {time : Instant}
    (hordered : (calls.map Call.time).Pairwise (· ≤ ·)) (h : (time, since) ∈ emissions id calls)
    (key : Key) :
    ∃ before registry old, calls = before ++ [.fanout registry time] ++ since ∧
      old.Sublist ((empty.run (before ++ [.fanout registry time])).buffer key) ∧
      (empty.run calls).buffer key = old ++ remaining key since := by
  obtain ⟨before, registry, rfl⟩ := exists_cut_of_mem_emissions h
  obtain ⟨old, hold, hkept⟩ := remaining_append key hordered
  have hfirst : ((before ++ [Call.fanout registry time]).map Call.time).Pairwise (· ≤ ·) :=
    hordered.sublist ((List.sublist_append_left _ _).map _)
  refine ⟨before, registry, old, rfl, ?_, ?_⟩
  · rw [buffer_run key hfirst]
    exact hold
  · rw [buffer_run key hordered, hkept]

/-! ## Reading -/

/-- Of the samples that came since its last value, those that a link is to read are all but the
ones that came at the time of that value. -/
theorem unread_eq_filter {id : LinkId} {calls since : List Call} {time : Instant}
    (hordered : (calls.map Call.time).Pairwise (· ≤ ·))
    (hlisted : ∀ registry now, .fanout registry now ∈ calls → registry.contains id = true)
    (hlast : (emissions id calls).getLast? = some (time, since)) (link : Link) :
    (empty.run calls).unread id link =
      (remaining link.sourceKey since).filter fun s => s.time ≠ time := by
  obtain ⟨before, registry, old, rfl, hold, hbuffer⟩ :=
    exists_buffer_eq_append hordered (List.mem_of_getLast? hlast) link.sourceKey
  simp only [List.map_append, List.pairwise_append, List.mem_append, List.mem_map] at hordered
  obtain ⟨⟨-, -, hbefore⟩, -, hsince⟩ := hordered
  have hsamples : (empty.run (before ++ [.fanout registry time])).SamplesBy time := by
    refine (samplesBy_empty time).run fun call hcall => ?_
    rcases List.mem_append.mp hcall with hcall | hcall
    · exact hbefore _ ⟨call, hcall, rfl⟩ time (by simp [Call.time])
    · rw [List.mem_singleton.mp hcall]
      exact Nat.le_refl time
  -- What came before the value is not later than it, so it is not read again.
  have hnone : old.filter (fun s => decide (time < s.time)) = [] :=
    List.filter_eq_nil_iff.mpr fun s hs => by
      simpa using hsamples link.sourceKey s (hold.subset hs)
  rw [unread, find?_lastFanout_run hlisted, hlast, hbuffer, Option.map_some, window,
    List.filter_append, hnone, List.nil_append]
  -- What came after it is not earlier, so "later" fails for it only at the same time.
  refine List.filter_congr fun s hs => ?_
  obtain ⟨call, hcall, htime⟩ := exists_call_of_mem_remaining hs
  have hle : time ≤ s.time := htime ▸ hsince time (.inr (by simp [Call.time])) _ ⟨call, hcall, rfl⟩
  rw [decide_eq_decide]
  exact ⟨Nat.ne_of_gt, fun hne => Nat.lt_of_le_of_ne hle hne.symm⟩

/-- What a link reads after it gave a value came later than the value. -/
theorem lt_time_of_mem_unread {calls later : List Call} {registry : Registry} {now : Instant}
    {f : Fanout} (hf : f ∈ ((empty.run calls).fanout registry now).2)
    (htimes : ∀ call ∈ later, now ≤ call.time)
    (hlisted : ∀ r t, .fanout r t ∈ later → r.contains f.link = true) {link : Link} {s : Sample}
    (hs : s ∈ (empty.run (calls ++ .fanout registry now :: later)).unread f.link link) :
    now < s.time := by
  have hrun : empty.run (calls ++ .fanout registry now :: later) =
      ((empty.run calls).fanout registry now).1.run later := by
    simp only [run, List.foldl_append, List.foldl_cons, perform]
  obtain ⟨last, hlast, hle⟩ := (readUpTo_fanout hf).run htimes hlisted
  rw [hrun] at hs
  exact Nat.lt_of_le_of_lt hle ((mem_unread.mp hs).2 last hlast)

/-- What a link reads at a call where it gives a value, if it was in the registry at every call
so far. If it gave no value yet, it reads all samples kept for its key. Otherwise the samples
kept are some that were there when it last gave a value, and then those that came since; of
the latter it reads all but those that came at the very time of that value. As it reads none
of them later, those left out are lost to it. -/
theorem reads_all_but_ties (calls : List Call) (registry : Registry) (now : Instant) (f : Fanout)
    {e : RegistryEntry}
    (hordered : ((calls ++ [Call.fanout registry now]).map Call.time).Pairwise (· ≤ ·))
    (hlisted : ∀ r t, .fanout r t ∈ calls → r.contains f.link = true)
    (he : registry.find? f.link = some e) (hf : f ∈ ((empty.run calls).fanout registry now).2) :
    let a := empty.run calls
    let key := e.link.sourceKey
    let read := a.unread f.link e.link
    some f.value = Reduction.reduce e.link.aggregation (read.map (·.value)) ∧
    ((emissions f.link calls).getLast? = none → read = a.buffer key) ∧
    ∀ time since, (emissions f.link calls).getLast? = some (time, since) →
      let fresh := remaining key since
      (∃ before r old, calls = before ++ [.fanout r time] ++ since ∧
        old.Sublist ((empty.run (before ++ [.fanout r time])).buffer key) ∧
        a.buffer key = old ++ fresh) ∧
      read = fresh.filter (fun s => s.time ≠ time) ∧
      (read = fresh ↔ ∀ s ∈ fresh, s.time ≠ time) ∧
      ∀ s ∈ fresh, ∀ later link, (∀ call ∈ later, now ≤ call.time) →
        (∀ r t, .fanout r t ∈ later → r.contains f.link = true) →
          s ∉ (empty.run (calls ++ .fanout registry now :: later)).unread f.link link := by
  intro a key read
  rw [List.map_append, List.pairwise_append] at hordered
  obtain ⟨hcalls, -, hnow⟩ := hordered
  refine ⟨(value_of_mem_fanout hf he).1, fun hfirst => ?_, fun time since hlast => ?_⟩
  · simp only [read, unread, a, find?_lastFanout_run hlisted, hfirst]
    rfl
  · intro fresh
    have hcut := exists_buffer_eq_append hcalls (List.mem_of_getLast? hlast) key
    have hread : read = fresh.filter fun s => s.time ≠ time :=
      unread_eq_filter hcalls hlisted hlast e.link
    refine ⟨hcut, hread, ?_, fun s hs later link htimes hlater hmem => ?_⟩
    · rw [hread, List.filter_eq_self]
      simp
    · obtain ⟨before, r, old, -, -, hbuffer⟩ := hcut
      have hearly : s.time ≤ now := by
        have hby : a.SamplesBy now := (samplesBy_empty now).run fun call hcall =>
          hnow _ (List.mem_map_of_mem hcall) now (by simp [Call.time])
        exact hby key s (hbuffer ▸ List.mem_append_right old hs)
      exact Nat.not_lt_of_le hearly (lt_time_of_mem_unread hf htimes hlater hmem)

/-- A link sums the values of key 1 every 20 ms. It gives 3 at once, and 4 comes at the same time.
Of the values that come then it gives 5 + 6 next; the 4, though kept, is lost to it. -/
theorem sum_omits_tie :
    let link : Link := { Link.new .recv 1 2 with rate := .clamp 20, aggregation := .sum }
    let r := (Registry.empty {}).tryUpdate link (.v4 1)
    let since : List Call := [.ingest 1 (.ofWord32 4) 0, .ingest 1 (.ofWord32 5) 10000,
      .ingest 1 (.ofWord32 6) 15000]
    let calls : List Call := [.ingest 1 (.ofWord32 3) 0, .fanout r 0] ++ since
    let a := empty.run calls
    let later : List Call := [.ingest 1 (.ofWord32 7) 30000]
    (a.fanout r 20000).2 = [⟨link.id, 2, .empty, .ofWord32 11⟩] ∧
    remaining 1 since = [⟨.ofWord32 4, 0⟩, ⟨.ofWord32 5, 10000⟩, ⟨.ofWord32 6, 15000⟩] ∧
    a.unread link.id link = [⟨.ofWord32 5, 10000⟩, ⟨.ofWord32 6, 15000⟩] ∧
    a.unread link.id link ≠ remaining 1 since ∧
    ⟨.ofWord32 4, 0⟩ ∉
      (empty.run (calls ++ .fanout r 20000 :: later)).unread link.id link := by
  intro link r since calls a later
  have hgiven : (a.fanout r 20000).2 = [⟨link.id, 2, .empty, .ofWord32 11⟩] := by decide +kernel
  have hfound : r.find? link.id = some ⟨link, [⟨.v4 1, 60⟩]⟩ := by decide +kernel
  have hlisted : ∀ r' t, Call.fanout r' t ∈ calls → r'.contains link.id = true := by
    intro r' t hmem
    have hfanout : Call.fanout r' t = .fanout r 0 := by simpa [calls, since] using hmem
    rw [(Call.fanout.inj hfanout).1]
    decide +kernel
  have hlast : (emissions link.id calls).getLast? = some (0, since) := by
    have hgives : ∃ f ∈ ((empty.run [.ingest 1 (.ofWord32 3) 0]).fanout r 0).2,
        f.link = link.id := by decide +kernel
    simp [emissions, brought, moments, momentsFrom, given?, calls, since, hgives]
  have hfresh : remaining 1 since =
      [⟨.ofWord32 4, 0⟩, ⟨.ofWord32 5, 10000⟩, ⟨.ofWord32 6, 15000⟩] := by decide +kernel
  obtain ⟨-, -, hsince⟩ := reads_all_but_ties calls r 20000 ⟨link.id, 2, .empty, .ofWord32 11⟩
    (by decide) hlisted hfound (hgiven ▸ List.mem_singleton_self _)
  obtain ⟨-, hread, hall, hlost⟩ := hsince 0 since hlast
  have htie : ⟨.ofWord32 4, 0⟩ ∈ remaining 1 since := by rw [hfresh]; simp
  refine ⟨hgiven, hfresh, hread.trans ?_, fun heq => hall.mp heq _ htie rfl,
    hlost _ htie later link (by decide) (by simp [later])⟩
  exact (congrArg (List.filter _) hfresh).trans (by decide)

/-- A 4 comes right after a link gave a value, at the same time. It is kept, but the next value is
made of the 5 alone that came later. -/
theorem sample_at_time_of_value_not_read :
    let link : Link := { Link.new .recv 1 2 with rate := .clamp 20, aggregation := .sum }
    let r := (Registry.empty {}).tryUpdate link (.v4 1)
    let before : List Call := [.ingest 1 (.ofWord32 3) 0]
    let since : List Call := [.ingest 1 (.ofWord32 4) 0, .ingest 1 (.ofWord32 5) 10000]
    let a := empty.run (before ++ .fanout r 0 :: since)
    ((empty.run before).fanout r 0).2 = [⟨link.id, 2, .empty, .ofWord32 3⟩] ∧
    ⟨.ofWord32 4, 0⟩ ∈ a.buffer 1 ∧ ⟨.ofWord32 4, 0⟩ ∉ a.unread link.id link ∧
    (a.fanout r 20000).2 = [⟨link.id, 2, .empty, .ofWord32 5⟩] := by
  decide +kernel

end Aggregator

end LinkFabric
