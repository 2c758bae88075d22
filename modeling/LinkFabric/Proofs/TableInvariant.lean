import LinkFabric.Proofs.Lease
import LinkFabric.Proofs.Resending

/-!
# Bindings and times never come apart

A node holds its bindings in one list and the times of its sources in another place, and
every message, sending and silence of the leader changes the two by different rules. A
source without a time would never be sent again, and a time without a source never be
dropped. Neither happens, whatever the calls and their times are; and what outlives a check
for silence was renewed not long ago.

Main results:

* `BindingTable.Sound.perform`, `BindingTable.sound_run`: bindings are unambiguous and exactly
  the sources have times, after every call and so after every run.
* `BindingTable.lastBind_run_iff`: the table knows when the last message came.
* `BindingTable.bindings_and_times_agree`: what holds after every run, and what a sending and
  a check for silence do then.
-/

namespace LinkFabric

namespace BindingTable

/-- A call of a binding table: a message of an assignment arrives, the silence of the leader is
checked, or what is due is sent. -/
inductive Call where
  | apply (first : Bool) (received : List Binding) (now : Instant)
  | expire (now : Instant)
  | due (now : Instant)

/-- Whether a call takes in a message. -/
def Call.isApply : Call → Bool
  | .apply _ _ _ => true
  | .expire _ | .due _ => false

/-- The table after a call. -/
def perform (t : BindingTable) : Call → BindingTable
  | .apply first received now => t.apply first received now
  | .expire now => (t.expire now).1
  | .due now => (t.dueSources now).1

/-- The table after a run of calls. -/
def run (t : BindingTable) (calls : List Call) : BindingTable := calls.foldl perform t

theorem run_append_singleton (t : BindingTable) (calls : List Call) (call : Call) :
    t.run (calls ++ [call]) = (t.run calls).perform call := by
  rw [run, List.foldl_append]
  rfl

/-! ## Silence -/

theorem isStale_iff {t : BindingTable} {now : Instant} :
    t.isStale now = true ↔
      t.bindings ≠ [] ∧ ∃ last, t.lastBind = some last ∧ t.staleAfter ≤ now.since last := by
  unfold isStale
  cases t.lastBind with
  | none => simp
  | some last => simp

/-- A check for silence drops everything or changes nothing. -/
theorem expire_eq (t : BindingTable) (now : Instant) :
    (t.expire now).1 =
      if t.isStale now then { t with bindings := [], nextDue := .empty } else t := by
  unfold expire
  split_ifs <;> rfl

theorem lastBind_expire (t : BindingTable) (now : Instant) :
    (t.expire now).1.lastBind = t.lastBind := by
  rw [expire_eq]
  split_ifs <;> rfl

theorem expire_eq_self {t : BindingTable} {now : Instant}
    (h : (t.expire now).1.bindings ≠ []) : (t.expire now).1 = t := by
  rw [expire_eq] at h ⊢
  split_ifs at h ⊢
  · exact absurd rfl h
  · rfl

theorem staleAfter_perform (t : BindingTable) (call : Call) :
    (t.perform call).staleAfter = t.staleAfter := by
  cases call with
  | apply first received now => rfl
  | expire now =>
    rw [perform, expire_eq]
    split_ifs <;> rfl
  | due now => rfl

theorem staleAfter_run (t : BindingTable) (calls : List Call) :
    (t.run calls).staleAfter = t.staleAfter :=
  List.foldlRecOn (motive := fun t' : BindingTable => t'.staleAfter = t.staleAfter) calls perform
    rfl fun t' h call _ => (staleAfter_perform t' call).trans h

/-! ## What every call keeps -/

/-- The two parts of a table agree: no two bindings have the same key and role, exactly the
sources have times, and bindings came with a message. -/
structure Sound (t : BindingTable) : Prop where
  unambiguous : Unambiguous t.bindings
  scheduled : t.Scheduled
  dated : t.bindings ≠ [] → ∃ last, t.lastBind = some last

theorem sound_cleared {t : BindingTable} (hbindings : t.bindings = [])
    (htimes : t.nextDue = .empty) : t.Sound where
  unambiguous := by
    rw [hbindings]
    exact .nil
  scheduled := by
    intro key
    rw [hbindings, htimes]
    simp [sourceKeys]
  dated := fun hne => absurd hbindings hne

theorem unambiguous_apply {t : BindingTable} (h : Unambiguous t.bindings) (first : Bool)
    (received : List Binding) (now : Instant) :
    Unambiguous (t.apply first received now).bindings := by
  unfold apply
  cases first with
  | true => exact unambiguous_foldl_merge .nil received
  | false => exact unambiguous_foldl_merge h received

theorem Sound.perform {t : BindingTable} (h : t.Sound) (call : Call) : (t.perform call).Sound := by
  cases call with
  | apply first received now =>
    exact ⟨unambiguous_apply h.unambiguous first received now,
      scheduled_apply t first received now, fun _ => ⟨now, rfl⟩⟩
  | expire now =>
    rw [BindingTable.perform, expire_eq]
    split_ifs
    · exact sound_cleared rfl rfl
    · exact h
  | due now => exact ⟨h.unambiguous, h.scheduled.dueSources h.unambiguous now, h.dated⟩

theorem sound_run (staleAfter : Span) (calls : List Call) : ((empty staleAfter).run calls).Sound :=
  List.foldlRecOn (motive := Sound) calls BindingTable.perform (sound_cleared rfl rfl)
    fun _ h call _ => h.perform call

/-- Bindings outlive a check for silence just when the last message is recent. -/
theorem Sound.bindings_expire_ne_nil_iff {t : BindingTable} (h : t.Sound) {now : Instant} :
    (t.expire now).1.bindings ≠ [] ↔
      t.bindings ≠ [] ∧ ∃ last, t.lastBind = some last ∧ now.since last < t.staleAfter := by
  rw [expire_eq]
  split_ifs with hstale
  · obtain ⟨-, last, hlast, hold⟩ := isStale_iff.mp hstale
    refine iff_of_false (fun hne => hne rfl) ?_
    rintro ⟨-, last', hlast', hrecent⟩
    obtain rfl := Option.some.inj (hlast.symm.trans hlast')
    exact Nat.not_le.mpr hrecent hold
  · refine ⟨fun hne => ⟨hne, ?_⟩, And.left⟩
    obtain ⟨last, hlast⟩ := h.dated hne
    refine ⟨last, hlast, Nat.not_le.mp fun hold => ?_⟩
    exact hstale (isStale_iff.mpr ⟨hne, last, hlast, hold⟩)

/-! ## The last message -/

/-- The last message among some calls came at a time. -/
def LastApplied (calls : List Call) (time : Instant) : Prop :=
  ∃ first received before after, calls = before ++ .apply first received time :: after ∧
    ∀ call ∈ after, call.isApply = false

theorem not_lastApplied_nil {time : Instant} : ¬ LastApplied [] time := by
  rintro ⟨first, received, before, after, heq, -⟩
  simp at heq

theorem lastApplied_append_singleton {calls : List Call} {call : Call} {time : Instant} :
    LastApplied (calls ++ [call]) time ↔
      (∃ first received, call = .apply first received time) ∨
        call.isApply = false ∧ LastApplied calls time := by
  unfold LastApplied
  simp only [exists_cut_append_singleton, List.forall_mem_append, List.forall_mem_singleton]
  constructor
  · rintro ⟨first, received, ⟨rfl, -⟩ | ⟨before, after, heq, hafter, hcall⟩⟩
    · exact .inl ⟨first, received, rfl⟩
    · exact .inr ⟨hcall, first, received, before, after, heq, hafter⟩
  · rintro (⟨first, received, rfl⟩ | ⟨hcall, first, received, before, after, heq, hafter⟩)
    · exact ⟨first, received, .inl ⟨rfl, by simp⟩⟩
    · exact ⟨first, received, .inr ⟨before, after, heq, hafter, hcall⟩⟩

/-- The table knows when the last message came. -/
theorem lastBind_run_iff (staleAfter : Span) (calls : List Call) (time : Instant) :
    ((empty staleAfter).run calls).lastBind = some time ↔ LastApplied calls time := by
  induction calls using List.reverseRecOn with
  | nil => exact iff_of_false (by simp [run, empty]) not_lastApplied_nil
  | append_singleton calls call ih =>
    rw [run_append_singleton, lastApplied_append_singleton]
    cases call with
    | apply first received now => simp [perform, apply, Call.isApply]
    | expire now => simp [perform, lastBind_expire, ih, Call.isApply]
    | due now =>
      show ((empty staleAfter).run calls).lastBind = some time ↔ _
      simp [ih, Call.isApply]

/-- After any calls at any times, no two bindings have the same key and role, and exactly the
keys of the sources have a time. Then a sending sends, in the order of the bindings and each
once, the sources whose time has come; their next time is a rate later than now, and nothing
else changes. And a check for silence keeps bindings, if there are any, just when the last
message is less than the allowed span ago, and then it changes nothing. -/
theorem bindings_and_times_agree (staleAfter : Span) (calls : List Call) :
    let t := (empty staleAfter).run calls
    t.bindings.Pairwise (fun a b => ¬ (a.key = b.key ∧ a.role = b.role)) ∧
    (∀ key, key ∈ t.nextDue.keys ↔ ∃ b ∈ t.bindings, b.role = .source ∧ b.key = key) ∧
    (∀ now,
      let t' := (t.dueSources now).1
      let sent := (t.dueSources now).2
      sent = (sourceKeys t.bindings).filter (isDue t.nextDue now) ∧ sent.Nodup ∧
      (∀ b ∈ t.bindings, b.role = .source → b.key ∈ sent →
        t'.nextDue.find? b.key = some (now + Span.ofMs b.rate.toNat)) ∧
      (∀ key, key ∉ sent → t'.nextDue.find? key = t.nextDue.find? key) ∧
      t'.bindings = t.bindings ∧ t'.lastBind = t.lastBind ∧ t'.staleAfter = t.staleAfter) ∧
    (∀ now,
      ((t.expire now).1.bindings ≠ [] ↔
        t.bindings ≠ [] ∧ ∃ last, LastApplied calls last ∧ now.since last < staleAfter) ∧
      ((t.expire now).1.bindings ≠ [] → (t.expire now).1 = t)) := by
  intro t
  have hsound : t.Sound := sound_run staleAfter calls
  have hone := hsound.unambiguous
  have hlast : ∀ time, t.lastBind = some time ↔ LastApplied calls time :=
    lastBind_run_iff staleAfter calls
  have hstale : t.staleAfter = staleAfter := staleAfter_run (empty staleAfter) calls
  refine ⟨hone, fun key => ?_, fun now => ?_, fun now => ?_⟩
  · rw [SortedMap.mem_keys_iff, ← Option.isSome_iff_exists, hsound.scheduled key, mem_sourceKeys]
  · refine ⟨dueSources_keys hone now, ?_, fun b hb hrole => find?_dueSources_of_mem hone hb hrole,
      fun key => find?_dueSources_of_not_mem hone, rfl, rfl, rfl⟩
    rw [dueSources_keys hone now]
    exact hone.nodup_sources.filter _
  · refine ⟨?_, expire_eq_self⟩
    rw [hsound.bindings_expire_ne_nil_iff, hstale]
    simp only [hlast]

/-- Two sources are sent at the start. After 50 ms the first is bound as a sink instead, and
the second gets another rate. After 100 ms only the second is sent, and the first has no time
any more; after 5 s without a message all is dropped. -/
theorem source_turned_sink_not_sent :
    let calls : List Call :=
      [.apply true [⟨1, 100, .source⟩, ⟨2, 100, .source⟩] 0, .due 0,
        .apply true [⟨1, 100, .sink⟩, ⟨2, 300, .source⟩] (Span.ofMs 50)]
    let t := (empty (Span.ofSeconds 5)).run calls
    let sent := t.dueSources (Span.ofMs 100)
    1 ∉ t.nextDue.keys ∧ sent.2 = [2] ∧ sent.1.nextDue.find? 2 = some (Span.ofMs 400) ∧
    (t.expire (Span.ofMs 5050)).1.bindings = [] := by
  intro calls t sent
  obtain ⟨-, htimes, hsending, hsilence⟩ := bindings_and_times_agree (Span.ofSeconds 5) calls
  obtain ⟨hsent, -, hnext, -⟩ := hsending (Span.ofMs 100)
  have hkeys : sent.2 = [2] := hsent.trans (by decide)
  refine ⟨fun hmem => ?_, hkeys, ?_, ?_⟩
  · exact absurd ((htimes 1).mp hmem) (by decide)
  · exact hnext ⟨2, 300, .source⟩ (by decide) rfl (by rw [hkeys]; decide)
  · by_contra hne
    obtain ⟨-, last, hlast, hrecent⟩ := (hsilence (Span.ofMs 5050)).1.mp hne
    obtain rfl : Span.ofMs 50 = last :=
      Option.some.inj ((lastBind_run_iff (Span.ofSeconds 5) calls last).mpr hlast)
    exact absurd hrecent (by decide)

end BindingTable

end LinkFabric
