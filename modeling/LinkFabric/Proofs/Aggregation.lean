import LinkFabric.Coordination.Aggregator
import LinkFabric.Proofs.Reduction

/-!
# Values are read once, and not dropped unread

Any number of links read the values of a key, each at its own rate, and all of them share
one buffer. What a link has read is known only by the time of its last fanout. That time
is enough: a link that stays in the registry never reads a value twice, and a value that
gets too old has been read by every link that was there to read it, since no link reads
less often than values are kept.

Main results:

* `Aggregator.mem_fanout_iff`: which values a call gives.
* `Aggregator.buffer_fanout`, `Aggregator.find?_lastFanout_fanout`: what a call leaves.
* `Aggregator.windows_read_once`: what a link reads at two of its fanouts, and what had been
  read of the values that a call drops.
-/

namespace LinkFabric

namespace Aggregator

/-! ## What one call does -/

/-- The samples that a link has not read. -/
def unread (a : Aggregator) (id : LinkId) (link : Link) : List Sample :=
  window (a.buffer link.sourceKey) (a.lastFanout.find? id)

theorem mem_window {samples : List Sample} {last : Option Instant} {s : Sample} :
    s ∈ window samples last ↔ s ∈ samples ∧ ∀ t, last = some t → t < s.time := by
  cases last with
  | none => simp [window]
  | some t => simp [window]

theorem mem_unread {a : Aggregator} {id : LinkId} {link : Link} {s : Sample} :
    s ∈ a.unread id link ↔
      s ∈ a.buffer link.sourceKey ∧ ∀ t, a.lastFanout.find? id = some t → t < s.time :=
  mem_window

theorem isDue_iff {link : Link} {last : Option Instant} {now : Instant} :
    isDue link last now = true ↔
      ∀ t, last = some t → Span.ofMs link.rate.ms.toNat ≤ now.since t := by
  cases last with
  | none => simp [isDue]
  | some t => simp [isDue]

theorem fanoutOf_eq_some_iff {a : Aggregator} {now : Instant} {id : LinkId} {link : Link}
    {f : Fanout} :
    a.fanoutOf now id link = some f ↔
      link.mode ≠ .send ∧ isDue link (a.lastFanout.find? id) now = true ∧
      ∃ value, Reduction.reduce link.aggregation ((a.unread id link).map (·.value)) = some value ∧
        ⟨id, link.destKey, link.query, value⟩ = f := by
  simp only [fanoutOf, unread]
  split_ifs with h
  · refine iff_of_false (by simp) ?_
    rintro ⟨hmode, hdue, _⟩
    rcases h with h | h
    · exact hmode h
    · simp [hdue] at h
  · obtain ⟨hmode, hdue⟩ := not_or.mp h
    have hdue : isDue link (a.lastFanout.find? id) now = true := by simpa using hdue
    simp [hmode, hdue, Option.map_eq_some_iff]

/-- A call gives, for every link of the registry, the value that the link gives. -/
theorem mem_fanout_iff {a : Aggregator} {registry : Registry} {now : Instant} {f : Fanout} :
    f ∈ (a.fanout registry now).2 ↔
      ∃ e, registry.find? f.link = some e ∧ a.fanoutOf now f.link e.link = some f := by
  simp only [fanout, List.mem_filterMap]
  constructor
  · rintro ⟨⟨id, e⟩, hmem, hf⟩
    obtain ⟨_, _, _, _, rfl⟩ := fanoutOf_eq_some_iff.mp hf
    exact ⟨e, (SortedMap.mem_entries_iff _).mp hmem, hf⟩
  · rintro ⟨e, he, hf⟩
    exact ⟨(f.link, e), (SortedMap.mem_entries_iff _).mpr he, hf⟩

/-- A link gives a value as soon as it is due and has something to read. -/
theorem exists_mem_fanout {a : Aggregator} {registry : Registry} {now : Instant} {id : LinkId}
    {e : RegistryEntry} (he : registry.find? id = some e) (hmode : e.link.mode ≠ .send)
    (hdue : isDue e.link (a.lastFanout.find? id) now = true) {s : Sample}
    (hs : s ∈ a.unread id e.link) : ∃ f ∈ (a.fanout registry now).2, f.link = id := by
  have hread : (a.unread id e.link).map (·.value) ≠ [] :=
    List.ne_nil_of_mem (List.mem_map_of_mem hs)
  obtain ⟨value, hvalue⟩ := Reduction.exists_reduce e.link.aggregation hread
  exact ⟨⟨id, e.link.destKey, e.link.query, value⟩,
    mem_fanout_iff.mpr ⟨e, he, fanoutOf_eq_some_iff.mpr ⟨hmode, hdue, value, hvalue, rfl⟩⟩, rfl⟩

theorem find?_foldl_insert (given : List Fanout) (times : SortedMap LinkId Instant)
    (now : Instant) (id : LinkId) :
    (given.foldl (fun m f => m.insert f.link now) times).find? id =
      if ∃ f ∈ given, f.link = id then some now else times.find? id := by
  induction given generalizing times with
  | nil => simp
  | cons f given ih =>
    rw [List.foldl_cons, ih]
    simp only [List.exists_mem_cons_iff]
    by_cases hrest : ∃ g ∈ given, g.link = id
    · rw [if_pos hrest, if_pos (.inr hrest)]
    · by_cases hf : f.link = id
      · rw [if_neg hrest, if_pos (.inl hf), ← hf, SortedMap.find?_insert_self]
      · rw [if_neg hrest, if_neg (not_or.mpr ⟨hf, hrest⟩), SortedMap.find?_insert_of_ne _ _ hf]

/-- A call takes the time for the links that give a value, and forgets links that are gone. -/
theorem find?_lastFanout_fanout (a : Aggregator) (registry : Registry) (now : Instant)
    (id : LinkId) :
    (a.fanout registry now).1.lastFanout.find? id =
      if registry.contains id then
        if ∃ f ∈ (a.fanout registry now).2, f.link = id then some now else a.lastFanout.find? id
      else none := by
  have hfound : (a.fanout registry now).1.lastFanout.find? id =
      (if ∃ f ∈ (a.fanout registry now).2, f.link = id then some now
        else a.lastFanout.find? id).filter fun _ => registry.contains id := by
    rw [← find?_foldl_insert]
    exact SortedMap.find?_filter _ _ _
  rw [hfound]
  generalize (if ∃ f ∈ (a.fanout registry now).2, f.link = id then some now
    else a.lastFanout.find? id) = last
  cases last <;> simp [Option.filter_some]

/-- A call drops the samples that are too old, and no others. -/
theorem buffer_fanout (a : Aggregator) (registry : Registry) (now : Instant) (key : Key) :
    (a.fanout registry now).1.buffer key =
      (a.buffer key).filter fun s => decide (now.since s.time ≤ horizon) := by
  simp only [buffer, fanout, prune, SortedMap.find?_filterMap]
  cases a.samples.find? key with
  | none => rfl
  | some held =>
    simp only [Option.bind_some, Option.getD_some]
    split_ifs with hempty
    · exact (List.isEmpty_iff.mp hempty).symm
    · rfl

theorem mem_buffer_ingest {a : Aggregator} {key key' : Key} {value : Value} {now : Instant}
    {s : Sample} (h : s ∈ (a.ingest key value now).buffer key') :
    s ∈ a.buffer key' ∨ key = key' ∧ s = ⟨value, now⟩ := by
  by_cases hkey : key = key'
  · subst hkey
    rw [buffer, ingest, SortedMap.find?_insert_self, Option.getD_some, List.mem_append,
      List.mem_singleton] at h
    refine h.imp (fun h => ?_) fun h => ⟨rfl, h⟩
    split at h
    · exact List.mem_of_mem_drop h
    · exact h
  · rw [buffer, ingest, SortedMap.find?_insert_of_ne _ _ hkey] at h
    exact .inl h

/-! ## Runs -/

/-- A call of an aggregator. -/
inductive Call where
  | ingest (key : Key) (value : Value) (now : Instant)
  | fanout (registry : Registry) (now : Instant)

/-- The time of a call. -/
def Call.time : Call → Instant
  | .ingest _ _ now => now
  | .fanout _ now => now

/-- The aggregator after a call. -/
def perform (a : Aggregator) : Call → Aggregator
  | .ingest key value now => a.ingest key value now
  | .fanout registry now => (a.fanout registry now).1

/-- The aggregator after a run of calls. -/
def run (a : Aggregator) (calls : List Call) : Aggregator := calls.foldl perform a

/-- No sample is later than a time. -/
def SamplesBy (a : Aggregator) (t : Instant) : Prop := ∀ key, ∀ s ∈ a.buffer key, s.time ≤ t

theorem samplesBy_empty (t : Instant) : empty.SamplesBy t := fun _ _ h => nomatch h

theorem SamplesBy.perform {a : Aggregator} {t : Instant} (h : a.SamplesBy t) {call : Call}
    (htime : call.time ≤ t) : (a.perform call).SamplesBy t := by
  intro key s hs
  cases call with
  | ingest key' value now =>
    rcases mem_buffer_ingest hs with hs | ⟨-, rfl⟩
    · exact h key s hs
    · exact htime
  | fanout registry now =>
    rw [Aggregator.perform, buffer_fanout] at hs
    exact h key s (List.mem_of_mem_filter hs)

theorem SamplesBy.run {a : Aggregator} {t : Instant} (h : a.SamplesBy t) {calls : List Call}
    (htimes : ∀ call ∈ calls, call.time ≤ t) : (a.run calls).SamplesBy t :=
  List.foldlRecOn (motive := (SamplesBy · t)) calls _ h fun _ h call hcall =>
    h.perform (htimes call hcall)

/-- A link has read everything up to a time. -/
def ReadUpTo (a : Aggregator) (id : LinkId) (t : Instant) : Prop :=
  ∃ last, a.lastFanout.find? id = some last ∧ t ≤ last

/-- A link that gives a value has read everything up to now. -/
theorem readUpTo_fanout {a : Aggregator} {registry : Registry} {now : Instant} {f : Fanout}
    (hf : f ∈ (a.fanout registry now).2) : (a.fanout registry now).1.ReadUpTo f.link now := by
  obtain ⟨e, he, _⟩ := mem_fanout_iff.mp hf
  have hlisted : registry.contains f.link = true := Option.isSome_of_eq_some he
  refine ⟨now, ?_, Nat.le_refl now⟩
  rw [find?_lastFanout_fanout, if_pos hlisted, if_pos ⟨f, hf, rfl⟩]

/-- What a link has read it has read for good, while it stays in the registry. -/
theorem ReadUpTo.perform {a : Aggregator} {id : LinkId} {t : Instant} (h : a.ReadUpTo id t)
    {call : Call} (htime : t ≤ call.time)
    (hlisted : ∀ registry now, call = .fanout registry now → registry.contains id = true) :
    (a.perform call).ReadUpTo id t := by
  cases call with
  | ingest key value now => exact h
  | fanout registry now =>
    obtain ⟨last, hlast, hle⟩ := h
    rw [ReadUpTo, Aggregator.perform, find?_lastFanout_fanout, if_pos (hlisted registry now rfl)]
    split_ifs with hgiven
    · exact ⟨now, rfl, htime⟩
    · exact ⟨last, hlast, hle⟩

theorem ReadUpTo.run {a : Aggregator} {id : LinkId} {t : Instant} (h : a.ReadUpTo id t)
    {calls : List Call} (htimes : ∀ call ∈ calls, t ≤ call.time)
    (hlisted : ∀ registry now, .fanout registry now ∈ calls → registry.contains id = true) :
    (a.run calls).ReadUpTo id t :=
  List.foldlRecOn (motive := (ReadUpTo · id t)) calls _ h fun _ h call hcall =>
    h.perform (htimes call hcall) fun registry now heq => hlisted registry now (heq ▸ hcall)

/-! ## Reading once -/

theorem ofMs_rate_le_horizon (link : Link) : Span.ofMs link.rate.ms.toNat ≤ horizon :=
  Nat.mul_le_mul_left 1000 link.rate.le_max

/-- A link that has not read a sample gives a value before the sample is dropped. -/
theorem readUpTo_of_old {a : Aggregator} {registry : Registry} {now : Instant} {id : LinkId}
    {e : RegistryEntry} {s : Sample} (he : registry.find? id = some e)
    (hmode : e.link.mode ≠ .send) (hs : s ∈ a.buffer e.link.sourceKey)
    (hold : horizon < now.since s.time) : (a.fanout registry now).1.ReadUpTo id s.time := by
  have hlisted : registry.contains id = true := Option.isSome_of_eq_some he
  rw [ReadUpTo, find?_lastFanout_fanout, if_pos hlisted]
  split_ifs with hgiven
  · exact ⟨now, rfl, Nat.le_of_lt (Instant.lt_of_lt_since hold)⟩
  -- The link gave nothing, so it was not due or had read all: either way its time is recent.
  by_contra hnone
  have hlate : ∀ t, a.lastFanout.find? id = some t → t < s.time := fun t ht =>
    Nat.lt_of_not_le fun hle => hnone ⟨t, ht, hle⟩
  have hdue : isDue e.link (a.lastFanout.find? id) now = true := by
    refine isDue_iff.mpr fun t ht => ?_
    calc Span.ofMs e.link.rate.ms.toNat
      _ ≤ horizon := ofMs_rate_le_horizon e.link
      _ ≤ now.since s.time := Nat.le_of_lt hold
      _ ≤ now.since t := Instant.since_le_since (Nat.le_of_lt (hlate t ht)) now
  exact hgiven (exists_mem_fanout he hmode hdue (mem_unread.mpr ⟨hs, hlate⟩))

/-- What a link gives is made of all that it has not read. -/
theorem value_of_mem_fanout {a : Aggregator} {registry : Registry} {now : Instant}
    {e : RegistryEntry} {f : Fanout} (hf : f ∈ (a.fanout registry now).2)
    (he : registry.find? f.link = some e) :
    some f.value =
        Reduction.reduce e.link.aggregation ((a.unread f.link e.link).map (·.value)) ∧
      isDue e.link (a.lastFanout.find? f.link) now = true := by
  obtain ⟨e', he', hof⟩ := mem_fanout_iff.mp hf
  obtain rfl : e = e' := Option.some.inj (he.symm.trans he')
  obtain ⟨_, hdue, value, hvalue, heq⟩ := fanoutOf_eq_some_iff.mp hof
  rw [hvalue, ← heq]
  exact ⟨rfl, by rw [← heq] at hdue; exact hdue⟩

/-- Two fanouts of one link in a run, with the link in the registry of every call between
them, reduce different samples and are at least a rate apart. And whatever state an
aggregator is in, the samples that a call drops are those past the horizon, and every link
on their key has by then read up to them. -/
theorem windows_read_once :
    (∀ (before between : List Call) (r₁ r₂ : Registry) (f₁ f₂ : Instant) (g₁ g₂ : Fanout)
        (e₁ e₂ : RegistryEntry),
      let calls := before ++ .fanout r₁ f₁ :: (between ++ [.fanout r₂ f₂])
      let a₁ := empty.run before
      let a₂ := empty.run (before ++ .fanout r₁ f₁ :: between)
      (calls.map Call.time).Pairwise (· ≤ ·) →
      g₁ ∈ (a₁.fanout r₁ f₁).2 → g₂ ∈ (a₂.fanout r₂ f₂).2 → g₂.link = g₁.link →
      r₁.find? g₁.link = some e₁ → r₂.find? g₁.link = some e₂ →
      (∀ r t, .fanout r t ∈ between → r.contains g₁.link = true) →
      some g₁.value =
        Reduction.reduce e₁.link.aggregation ((a₁.unread g₁.link e₁.link).map (·.value)) ∧
      some g₂.value =
        Reduction.reduce e₂.link.aggregation ((a₂.unread g₁.link e₂.link).map (·.value)) ∧
      (∀ s ∈ a₁.unread g₁.link e₁.link, s ∉ a₂.unread g₁.link e₂.link) ∧
      Span.ofMs e₂.link.rate.ms.toNat ≤ f₂.since f₁) ∧
    (∀ (a : Aggregator) (registry : Registry) (now : Instant) (key : Key), ∀ s ∈ a.buffer key,
      let after := (a.fanout registry now).1
      (s ∉ after.buffer key ↔ Span.ofMs rateMax < now.since s.time) ∧
      (s ∉ after.buffer key → ∀ id e, registry.find? id = some e → e.link.mode ≠ .send →
        e.link.sourceKey = key → ∃ t, after.lastFanout.find? id = some t ∧ s.time ≤ t)) := by
  constructor
  · intro before between r₁ r₂ f₁ f₂ g₁ g₂ e₁ e₂ calls a₁ a₂ htimes hg₁ hg₂ hlink he₁ he₂ hlisted
    simp only [calls, List.map_append, List.map_cons, List.pairwise_append, List.pairwise_cons,
      List.mem_append, List.mem_cons, List.mem_map] at htimes
    obtain ⟨-, ⟨hafter, -⟩, hbefore⟩ := htimes
    have hsamples : a₁.SamplesBy f₁ := (samplesBy_empty f₁).run fun call hcall =>
      hbefore _ ⟨call, hcall, rfl⟩ f₁ (.inl rfl)
    have hread : a₂.ReadUpTo g₁.link f₁ := by
      have hrun : a₂ = (a₁.fanout r₁ f₁).1.run between := by
        simp only [a₂, a₁, run, List.foldl_append, List.foldl_cons, perform]
      rw [hrun]
      exact (readUpTo_fanout hg₁).run (fun call hcall => hafter _ (.inl ⟨call, hcall, rfl⟩)) hlisted
    obtain ⟨last, hlast, hle⟩ := hread
    obtain ⟨hvalue₁, -⟩ := value_of_mem_fanout hg₁ he₁
    obtain ⟨hvalue₂, hdue⟩ := value_of_mem_fanout hg₂ (hlink ▸ he₂)
    rw [hlink] at hvalue₂ hdue
    refine ⟨hvalue₁, hvalue₂, fun s hs₁ hs₂ => ?_, ?_⟩
    · have hearly : s.time ≤ f₁ := hsamples _ s (mem_unread.mp hs₁).1
      have hlate : last < s.time := (mem_unread.mp hs₂).2 last hlast
      exact absurd (Nat.le_trans hearly hle) (Nat.not_le_of_lt hlate)
    · exact Nat.le_trans (isDue_iff.mp hdue last hlast) (Instant.since_le_since hle f₂)
  · intro a registry now key s hs after
    have hdropped : s ∉ after.buffer key ↔ horizon < now.since s.time := by
      rw [buffer_fanout, List.mem_filter, decide_eq_true_eq, not_and, Nat.not_le]
      exact ⟨fun h => h hs, fun h _ => h⟩
    refine ⟨hdropped, fun hgone id e he hmode hkey => ?_⟩
    exact readUpTo_of_old he hmode (hkey ▸ hs) (hdropped.mp hgone)

/-- A link sums the values of key 1 every 100 ms. It gives 3 + 4 at the start, nothing after
60 ms, and then only the 5 that came between. A value 9 that comes next and waits for more
than 30 s is dropped by the very call that reads it. -/
theorem sums_read_once :
    let link : Link := { Link.new .recv 1 2 with rate := .clamp 100, aggregation := .sum }
    let r := (Registry.empty {}).tryUpdate link (.v4 1)
    let before : List Call := [.ingest 1 (.ofWord32 3) 0, .ingest 1 (.ofWord32 4) 0]
    let between : List Call := [.ingest 1 (.ofWord32 5) 50000, .fanout r 60000]
    let a₁ := empty.run before
    let a₂ := empty.run (before ++ .fanout r 0 :: between)
    let a₃ := (a₂.fanout r 100000).1.ingest 1 (.ofWord32 9) 120000
    (a₁.fanout r 0).2 = [⟨link.id, 2, .empty, .ofWord32 7⟩] ∧
    (a₂.fanout r 100000).2 = [⟨link.id, 2, .empty, .ofWord32 5⟩] ∧
    (∀ s ∈ a₁.unread link.id link, s ∉ a₂.unread link.id link) ∧
    Span.ofMs link.rate.ms.toNat ≤ Instant.since 100000 0 ∧
    ⟨.ofWord32 9, 120000⟩ ∉ (a₃.fanout r 30120001).1.buffer 1 ∧
    ∃ t, (a₃.fanout r 30120001).1.lastFanout.find? link.id = some t ∧ 120000 ≤ t := by
  intro link r before between a₁ a₂ a₃
  have hfirst : (a₁.fanout r 0).2 = [⟨link.id, 2, .empty, .ofWord32 7⟩] := by decide +kernel
  have hsecond : (a₂.fanout r 100000).2 = [⟨link.id, 2, .empty, .ofWord32 5⟩] := by decide +kernel
  have hlisted : r.find? link.id = some ⟨link, [⟨.v4 1, 60⟩]⟩ := by decide +kernel
  have hheld : ⟨.ofWord32 9, 120000⟩ ∈ a₃.buffer 1 := by decide +kernel
  have hgone : ⟨.ofWord32 9, 120000⟩ ∉ (a₃.fanout r 30120001).1.buffer 1 := by decide +kernel
  have hbetween : ∀ r' t, Call.fanout r' t ∈ between → r'.contains link.id = true := by
    intro r' t hmem
    rcases List.mem_cons.mp hmem with h | h
    · cases h
    · rw [(Call.fanout.inj (List.mem_singleton.mp h)).1]
      decide +kernel
  obtain ⟨-, -, hdisjoint, hrate⟩ := windows_read_once.1 before between r r 0 100000
    ⟨link.id, 2, .empty, .ofWord32 7⟩ ⟨link.id, 2, .empty, .ofWord32 5⟩ _ _ (by decide)
    (hfirst ▸ List.mem_singleton_self _) (hsecond ▸ List.mem_singleton_self _) rfl hlisted hlisted
    hbetween
  have hread := (windows_read_once.2 a₃ r 30120001 1 _ hheld).2 hgone link.id _ hlisted
    (by decide) rfl
  exact ⟨hfirst, hsecond, hdisjoint, hrate, hgone, hread⟩

end Aggregator

end LinkFabric
