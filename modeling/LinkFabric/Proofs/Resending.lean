import LinkFabric.Proofs.BindingTable

/-!
# Sending an assignment again

The leader sends the whole assignment again in every cycle, in several messages if it is
long. The bindings do not change by that. The times of the sources do: the first message
of a cycle drops the times of all sources that it does not name itself, and when a later
message names them they are due at once. So exactly the sources of the first message keep
their pace.

Main results:

* `BindingTable.find?_cycle`: the time of a key after a cycle.
* `BindingTable.paced_serve`: a source of the first message is never sent too early.
* `BindingTable.resending_keeps_times_iff`: what a cycle keeps, and when.
-/

namespace LinkFabric

namespace BindingTable

/-! ## Cycles -/

/-- Takes in a cycle: its first message replaces what is held, the others extend it. -/
def cycle (t : BindingTable) (first : List Binding) (rest : List (List Binding)) (now : Instant) :
    BindingTable :=
  rest.foldl (fun t chunk => t.apply false chunk now) (t.apply true first now)

/-- Exactly the sources have times. -/
def Scheduled (t : BindingTable) : Prop :=
  ∀ key, (t.nextDue.find? key).isSome = true ↔ key ∈ sourceKeys t.bindings

theorem scheduled_apply (t : BindingTable) (first : Bool) (received : List Binding)
    (now : Instant) : (t.apply first received now).Scheduled := by
  intro key
  rw [find?_apply]
  split_ifs with h
  · simp [h]
  · simp [h]

theorem Scheduled.find?_eq_none {t : BindingTable} (h : t.Scheduled) {key : Key}
    (hkey : key ∉ sourceKeys t.bindings) : t.nextDue.find? key = none :=
  Option.not_isSome_iff_eq_none.mp fun hsome => hkey ((h key).mp hsome)

theorem Scheduled.exists_time {t : BindingTable} (h : t.Scheduled) {key : Key}
    (hkey : key ∈ sourceKeys t.bindings) : ∃ time, t.nextDue.find? key = some time :=
  Option.isSome_iff_exists.mp ((h key).mpr hkey)

theorem Scheduled.dueSources {t : BindingTable} (h : t.Scheduled) (hone : Unambiguous t.bindings)
    (now : Instant) : (t.dueSources now).1.Scheduled := by
  intro key
  rw [bindings_dueSources, ← h key]
  by_cases hsent : key ∈ (t.dueSources now).2
  · have hsource : key ∈ sourceKeys t.bindings := by
      rw [dueSources_keys hone] at hsent
      exact (List.mem_filter.mp hsent).1
    obtain ⟨b, hb, hrole, rfl⟩ := mem_sourceKeys.mp hsource
    rw [find?_dueSources_of_mem hone hb hrole hsent]
    exact iff_of_true rfl ((h b.key).mpr hsource)
  · rw [find?_dueSources_of_not_mem hone hsent]

theorem bindings_extend (t : BindingTable) (rest : List (List Binding)) (now : Instant) :
    (rest.foldl (fun t chunk => t.apply false chunk now) t).bindings =
      rest.flatten.foldl merge t.bindings := by
  induction rest generalizing t with
  | nil => rfl
  | cons chunk rest ih =>
    rw [List.foldl_cons, ih, List.flatten_cons, List.foldl_append]
    rfl

/-- The bindings after a cycle are those of its messages, however they are cut. -/
theorem bindings_cycle (t : BindingTable) (first : List Binding) (rest : List (List Binding))
    (now : Instant) :
    (t.cycle first rest now).bindings = (first ++ rest.flatten).foldl merge [] := by
  unfold cycle
  rw [bindings_extend, List.foldl_append]
  rfl

/-- What every message brings about, a cycle brings about. -/
theorem cycle_induction {motive : BindingTable → Prop} (t : BindingTable) (first : List Binding)
    (rest : List (List Binding)) (now : Instant) (hfirst : motive (t.apply true first now))
    (hrest : ∀ t chunk, motive t → motive (t.apply false chunk now)) :
    motive (t.cycle first rest now) :=
  List.foldlRecOn rest _ hfirst fun t h chunk _ => hrest t chunk h

theorem scheduled_cycle (t : BindingTable) (first : List Binding) (rest : List (List Binding))
    (now : Instant) : (t.cycle first rest now).Scheduled :=
  cycle_induction t first rest now (scheduled_apply t true first now)
    fun t chunk _ => scheduled_apply t false chunk now

theorem lastBind_cycle (t : BindingTable) (first : List Binding) (rest : List (List Binding))
    (now : Instant) : (t.cycle first rest now).lastBind = some now :=
  cycle_induction (motive := fun t' => t'.lastBind = some now) t first rest now rfl
    fun _ _ _ => rfl

theorem staleAfter_cycle (t : BindingTable) (first : List Binding) (rest : List (List Binding))
    (now : Instant) : (t.cycle first rest now).staleAfter = t.staleAfter :=
  cycle_induction (motive := fun t' => t'.staleAfter = t.staleAfter) t first rest now rfl
    fun _ _ h => h

/-- Further messages keep the times of the sources held, and make new ones due at once. -/
theorem find?_extend {t : BindingTable} (h : t.Scheduled) (rest : List (List Binding))
    (now : Instant) (key : Key) :
    (rest.foldl (fun t chunk => t.apply false chunk now) t).nextDue.find? key =
      if key ∈ sourceKeys t.bindings then t.nextDue.find? key
      else if key ∈ sourceKeys rest.flatten then some now
      else none := by
  induction rest generalizing t with
  | nil =>
    rw [List.foldl_nil, List.flatten_nil]
    split_ifs with hheld hnew
    · rfl
    · cases hnew
    · exact h.find?_eq_none hheld
  | cons chunk rest ih =>
    rw [List.foldl_cons, ih (scheduled_apply t false chunk now), find?_apply, List.flatten_cons,
      sourceKeys_append]
    have hmem := mem_sourceKeys_apply t false chunk now key
    by_cases hheld : key ∈ sourceKeys t.bindings
    · obtain ⟨time, htime⟩ := h.exists_time hheld
      simp [hmem, hheld, htime]
    · by_cases hchunk : key ∈ sourceKeys chunk
      · simp [hmem, hheld, hchunk, h.find?_eq_none hheld]
      · simp [hmem, hheld, hchunk]

/-- After a cycle the sources of its first message have the times they had; the others are
due at once. -/
theorem find?_cycle (t : BindingTable) (first : List Binding) (rest : List (List Binding))
    (now : Instant) (key : Key) :
    (t.cycle first rest now).nextDue.find? key =
      if key ∈ sourceKeys first then some ((t.nextDue.find? key).getD now)
      else if key ∈ sourceKeys rest.flatten then some now
      else none := by
  unfold cycle
  have hmem := mem_sourceKeys_apply t true first now key
  rw [find?_extend (scheduled_apply t true first now), find?_apply]
  by_cases hfirst : key ∈ sourceKeys first
  · simp [hmem, hfirst]
  · simp [hmem, hfirst]

/-! ## Tables that hold an assignment -/

/-- The table holds the assignment that a cycle carries, and its sources have times. -/
structure Holds (t : BindingTable) (first : List Binding) (rest : List (List Binding)) : Prop where
  bindings : t.bindings = (first ++ rest.flatten).foldl merge []
  scheduled : t.Scheduled

section Holds

variable {t : BindingTable} {first : List Binding} {rest : List (List Binding)}

theorem holds_cycle (t : BindingTable) (first : List Binding) (rest : List (List Binding))
    (now : Instant) : (t.cycle first rest now).Holds first rest :=
  ⟨bindings_cycle t first rest now, scheduled_cycle t first rest now⟩

theorem Holds.unambiguous (h : t.Holds first rest) : Unambiguous t.bindings := by
  rw [h.bindings]
  exact unambiguous_foldl_merge .nil _

theorem Holds.mem_sourceKeys (h : t.Holds first rest) {key : Key} :
    key ∈ sourceKeys t.bindings ↔ key ∈ sourceKeys first ∨ key ∈ sourceKeys rest.flatten := by
  rw [h.bindings, mem_sourceKeys_foldl_merge, sourceKeys_append, List.mem_append]
  exact or_iff_right List.not_mem_nil

theorem Holds.bindings_cycle (h : t.Holds first rest) (now : Instant) :
    (t.cycle first rest now).bindings = t.bindings :=
  (holds_cycle t first rest now).bindings.trans h.bindings.symm

/-- Sending the assignment again keeps the times of the sources of its first message. -/
theorem Holds.find?_cycle_of_mem (h : t.Holds first rest) {key : Key}
    (hkey : key ∈ sourceKeys first) (now : Instant) :
    (t.cycle first rest now).nextDue.find? key = t.nextDue.find? key := by
  obtain ⟨time, htime⟩ := h.scheduled.exists_time (h.mem_sourceKeys.mpr (Or.inl hkey))
  rw [find?_cycle, if_pos hkey, htime, Option.getD_some]

/-- Sending the assignment again makes its other sources due at once. -/
theorem Holds.find?_cycle_of_not_mem (h : t.Holds first rest) {key : Key}
    (hkey : key ∈ sourceKeys t.bindings) (hlate : key ∉ sourceKeys first) (now : Instant) :
    (t.cycle first rest now).nextDue.find? key = some now := by
  have hrest : key ∈ sourceKeys rest.flatten := (h.mem_sourceKeys.mp hkey).resolve_left hlate
  rw [find?_cycle, if_neg hlate, if_pos hrest]

theorem Holds.dueSources (h : t.Holds first rest) (now : Instant) :
    (t.dueSources now).1.Holds first rest :=
  ⟨h.bindings, h.scheduled.dueSources h.unambiguous now⟩

/-- A source is sent iff its time has come. -/
theorem Holds.mem_dueSources (h : t.Holds first rest) {key : Key}
    (hkey : key ∈ sourceKeys t.bindings) {time : Instant}
    (htime : t.nextDue.find? key = some time) (now : Instant) :
    key ∈ (t.dueSources now).2 ↔ time ≤ now := by
  rw [dueSources_keys h.unambiguous, List.mem_filter, isDue, htime]
  simp [hkey]

/-- The time of a source after a sending. -/
theorem Holds.find?_dueSources (h : t.Holds first rest) {b : Binding} (hb : b ∈ t.bindings)
    (hrole : b.role = .source) {time : Instant} (htime : t.nextDue.find? b.key = some time)
    (now : Instant) :
    (t.dueSources now).1.nextDue.find? b.key =
      some (if time ≤ now then now + Span.ofMs b.rate.toNat else time) := by
  rw [BindingTable.find?_dueSources h.unambiguous now hb hrole, isDue, htime]
  simp only [Option.any_some, decide_eq_true_eq]
  split_ifs <;> rfl

end Holds

/-! ## Sendings between cycles -/

/-- What happens to a table whose leader does not change the assignment: the leader sends it
again, or the node sends what is due. -/
inductive TableEvent where
  | resend (now : Instant)
  | due (now : Instant)

/-- The sendings in a run of events, each with its time and its keys. -/
def serve (first : List Binding) (rest : List (List Binding)) :
    BindingTable → List TableEvent → List (Instant × List Key)
  | _, [] => []
  | t, .resend now :: events => serve first rest (t.cycle first rest now) events
  | t, .due now :: events =>
    (now, (t.dueSources now).2) :: serve first rest (t.dueSources now).1 events

/-- Between two sendings of the key lies at least the given span. -/
def Paced (key : Key) (span : Span) (log : List (Instant × List Key)) : Prop :=
  log.Pairwise fun earlier later =>
    key ∈ earlier.2 → key ∈ later.2 → earlier.1 + span ≤ later.1

section Serve

variable {t : BindingTable} {first : List Binding} {rest : List (List Binding)} {b : Binding}

/-- No source of the first message is sent before its time. -/
theorem le_of_mem_serve (h : t.Holds first rest) (hb : b ∈ t.bindings) (hrole : b.role = .source)
    (hfirst : b.key ∈ sourceKeys first) {time : Instant}
    (htime : t.nextDue.find? b.key = some time) (events : List TableEvent) :
    ∀ entry ∈ t.serve first rest events, b.key ∈ entry.2 → time ≤ entry.1 := by
  induction events generalizing t time with
  | nil =>
    intro entry hentry
    cases hentry
  | cons event events ih =>
    have hkey : b.key ∈ sourceKeys t.bindings := h.mem_sourceKeys.mpr (Or.inl hfirst)
    cases event with
    | resend now =>
      have hheld : b ∈ (t.cycle first rest now).bindings := h.bindings_cycle now ▸ hb
      exact ih (holds_cycle t first rest now) hheld
        ((h.find?_cycle_of_mem hfirst now).trans htime)
    | due now =>
      intro entry hentry hsent
      rcases List.mem_cons.mp hentry with rfl | hentry
      · exact (h.mem_dueSources hkey htime now).mp hsent
      · have hnext := ih (h.dueSources now) hb (h.find?_dueSources hb hrole htime now)
          entry hentry hsent
        refine Nat.le_trans ?_ hnext
        -- a sending only moves times forward
        split_ifs with hdue
        · exact Nat.le_add_right_of_le hdue
        · exact Nat.le_refl time

/-- The sources of the first message keep their rate, whenever the assignment is sent
again. -/
theorem paced_serve (h : t.Holds first rest) (hb : b ∈ t.bindings) (hrole : b.role = .source)
    (hfirst : b.key ∈ sourceKeys first) (events : List TableEvent) :
    Paced b.key (Span.ofMs b.rate.toNat) (t.serve first rest events) := by
  induction events generalizing t with
  | nil => exact .nil
  | cons event events ih =>
    cases event with
    | resend now =>
      have hheld : b ∈ (t.cycle first rest now).bindings := h.bindings_cycle now ▸ hb
      exact ih (holds_cycle t first rest now) hheld
    | due now =>
      have hkey : b.key ∈ sourceKeys t.bindings := h.mem_sourceKeys.mpr (Or.inl hfirst)
      obtain ⟨time, htime⟩ := h.scheduled.exists_time hkey
      refine List.pairwise_cons.mpr ⟨?_, ih (h.dueSources now) hb⟩
      intro later hlater hsent
      have hdue : time ≤ now := (h.mem_dueSources hkey htime now).mp hsent
      have hnext := h.find?_dueSources hb hrole htime now
      rw [if_pos hdue] at hnext
      exact le_of_mem_serve (h.dueSources now) hb hrole hfirst hnext events later hlater

end Serve

/-- Sends what is due at each of some times. -/
def dueAll (t : BindingTable) (calls : List Instant) : BindingTable :=
  calls.foldl (fun t now => (t.dueSources now).1) t

theorem Holds.dueAll {t : BindingTable} {first : List Binding} {rest : List (List Binding)}
    (h : t.Holds first rest) (calls : List Instant) : (t.dueAll calls).Holds first rest :=
  List.foldlRecOn (motive := fun t : BindingTable => t.Holds first rest) calls _ h
    fun _ h now _ => h.dueSources now

/-- A table that holds an assignment gets it again. Its bindings stay. A source keeps its
time iff the first message names it, up to a time that happens to be now. A source that
the first message names is never sent twice within its rate; any other is due again with
every cycle, however short ago it was sent. -/
theorem resending_keeps_times_iff (t₀ : BindingTable) (first : List Binding)
    (rest : List (List Binding)) (start : Instant) (calls : List Instant) (now : Instant) :
    let t := (t₀.cycle first rest start).dueAll calls
    let t' := t.cycle first rest now
    t'.bindings = t.bindings ∧ t'.staleAfter = t.staleAfter ∧ t'.lastBind = some now ∧
      ∀ b ∈ t.bindings, b.role = .source →
        (t'.nextDue.find? b.key = t.nextDue.find? b.key ↔
          b.key ∈ sourceKeys first ∨ t.nextDue.find? b.key = some now) ∧
        (b.key ∈ sourceKeys first → ∀ events,
          Paced b.key (Span.ofMs b.rate.toNat) (t.serve first rest events)) ∧
        (b.key ∉ sourceKeys first → ∀ later, now ≤ later →
          b.key ∈ (t'.dueSources later).2) := by
  intro t t'
  have h : t.Holds first rest := (holds_cycle t₀ first rest start).dueAll calls
  have h' : t'.Holds first rest := holds_cycle t first rest now
  have hbindings : t'.bindings = t.bindings := h.bindings_cycle now
  refine ⟨hbindings, staleAfter_cycle t first rest now, lastBind_cycle t first rest now, ?_⟩
  intro b hb hrole
  have hkey : b.key ∈ sourceKeys t.bindings := mem_sourceKeys.mpr ⟨b, hb, hrole, rfl⟩
  refine ⟨?_, fun hfirst => paced_serve h hb hrole hfirst, ?_⟩
  · by_cases hfirst : b.key ∈ sourceKeys first
    · exact iff_of_true (h.find?_cycle_of_mem hfirst now) (Or.inl hfirst)
    · rw [h.find?_cycle_of_not_mem hkey hfirst now, or_iff_right hfirst]
      exact eq_comm
  · intro hlate later hlater
    have hkey' : b.key ∈ sourceKeys t'.bindings := hbindings ▸ hkey
    exact (h'.mem_dueSources hkey' (h.find?_cycle_of_not_mem hkey hlate now) later).mpr hlater

/-- Two sources with a rate of a second, each in a message of its own, are sent at the start.
The assignment comes again after 100 ms: the second source gets another time, and is sent
again. -/
theorem late_source_sent_again :
    let cycle (t : BindingTable) := t.cycle [⟨1, 1000, .source⟩] [[⟨2, 1000, .source⟩]]
    let sent := (cycle (empty (Span.ofSeconds 5)) 0).dueSources 0
    let again := cycle sent.1 (Span.ofMs 100)
    sent.2 = [1, 2] ∧ sent.1.nextDue.find? 2 = some (Span.ofMs 1000) ∧
      again.nextDue.find? 2 = some (Span.ofMs 100) ∧
      (again.dueSources (Span.ofMs 100)).2 = [2] := by
  decide

end BindingTable

end LinkFabric
