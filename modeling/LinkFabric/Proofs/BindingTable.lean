import LinkFabric.Node.BindingTable
import Mathlib.Data.List.Basic
import Mathlib.Tactic.SplitIfs

/-!
# What messages and sendings do to a binding table

A message of an assignment merges its bindings into those held and gives every new source
a time; a sending serves the sources that are due and sets their next times. Both are
stated here key by key.

Main results:

* `BindingTable.find?_apply`: the time of a key after a message.
* `BindingTable.dueSources_keys`: the keys that are sent are the sources that are due.
* `BindingTable.find?_dueSources`, `BindingTable.find?_dueSources_of_not_mem`: the times of
  sources and of other keys after a sending.
-/

namespace LinkFabric

namespace BindingTable

/-! ## Merging -/

/-- No two bindings have the same key and role. -/
def Unambiguous (l : List Binding) : Prop :=
  l.Pairwise fun a b => ¬ (a.key = b.key ∧ a.role = b.role)

theorem mem_sourceKeys {l : List Binding} {key : Key} :
    key ∈ sourceKeys l ↔ ∃ b ∈ l, b.role = .source ∧ b.key = key := by
  unfold sourceKeys
  simp only [List.mem_map, List.mem_filter, beq_iff_eq, and_assoc]

theorem sourceKeys_append (l l' : List Binding) :
    sourceKeys (l ++ l') = sourceKeys l ++ sourceKeys l' := by
  unfold sourceKeys
  rw [List.filter_append, List.map_append]

/-- A key and role is held after a merge iff it was held before or is merged. -/
theorem exists_mem_merge {l : List Binding} {b : Binding} {key : Key} {role : BindingRole} :
    (∃ c ∈ merge l b, c.role = role ∧ c.key = key) ↔
      (∃ c ∈ l, c.role = role ∧ c.key = key) ∨ b.role = role ∧ b.key = key := by
  induction l with
  | nil => simp [merge]
  | cons held rest ih =>
    rw [merge]
    split_ifs with h
    · obtain ⟨hkey, hrole⟩ := h
      simp only [List.exists_mem_cons_iff, hkey, hrole]
      constructor
      · rintro (h | h)
        · exact Or.inr h
        · exact Or.inl (Or.inr h)
      · rintro ((h | h) | h)
        · exact Or.inl h
        · exact Or.inr h
        · exact Or.inl h
    · rw [List.exists_mem_cons_iff, List.exists_mem_cons_iff, ih, or_assoc]

theorem exists_mem_foldl_merge {l received : List Binding} {key : Key} {role : BindingRole} :
    (∃ c ∈ received.foldl merge l, c.role = role ∧ c.key = key) ↔
      (∃ c ∈ l, c.role = role ∧ c.key = key) ∨ ∃ c ∈ received, c.role = role ∧ c.key = key := by
  induction received generalizing l with
  | nil => simp
  | cons b received ih =>
    rw [List.foldl_cons, ih, exists_mem_merge, List.exists_mem_cons_iff, or_assoc]

theorem mem_sourceKeys_foldl_merge {l received : List Binding} {key : Key} :
    key ∈ sourceKeys (received.foldl merge l) ↔
      key ∈ sourceKeys l ∨ key ∈ sourceKeys received := by
  simp only [mem_sourceKeys, exists_mem_foldl_merge]

theorem unambiguous_merge {l : List Binding} (h : Unambiguous l) (b : Binding) :
    Unambiguous (merge l b) := by
  unfold Unambiguous at *
  induction l with
  | nil => simp [merge]
  | cons held rest ih =>
    obtain ⟨hhead, htail⟩ := List.pairwise_cons.mp h
    rw [merge]
    split_ifs with hsame
    · exact List.pairwise_cons.mpr ⟨hhead, htail⟩
    · refine List.pairwise_cons.mpr ⟨?_, ih htail⟩
      -- the head differs from the rest and from the binding that comes in
      rintro c hc ⟨hkey, hrole⟩
      have hmem : (∃ d ∈ rest, d.role = c.role ∧ d.key = c.key) ∨ b.role = c.role ∧ b.key = c.key :=
        exists_mem_merge.mp ⟨c, hc, rfl, rfl⟩
      rcases hmem with ⟨d, hd, hdrole, hdkey⟩ | ⟨hbrole, hbkey⟩
      · exact hhead d hd ⟨hkey.trans hdkey.symm, hrole.trans hdrole.symm⟩
      · exact hsame ⟨hkey.trans hbkey.symm, hrole.trans hbrole.symm⟩

theorem unambiguous_foldl_merge {l : List Binding} (h : Unambiguous l) (received : List Binding) :
    Unambiguous (received.foldl merge l) := by
  induction received generalizing l with
  | nil => exact h
  | cons b received ih => exact ih (unambiguous_merge h b)

/-- The sources of unambiguous bindings have different keys. -/
theorem Unambiguous.nodup_sources {t : BindingTable} (h : Unambiguous t.bindings) :
    (t.sources.map (·.key)).Nodup := by
  unfold sources
  rw [List.Nodup, List.pairwise_map, List.pairwise_filter]
  refine List.Pairwise.imp ?_ h
  intro a b hab ha hb hkey
  exact hab ⟨hkey, (eq_of_beq ha).trans (eq_of_beq hb).symm⟩

/-! ## Messages -/

theorem find?_schedule (now : Instant) (due : SortedMap Key Instant) (key k : Key) :
    (schedule now due key).find? k =
      if k = key then some ((due.find? k).getD now) else due.find? k := by
  unfold schedule SortedMap.contains
  split_ifs with hheld heq heq
  · subst heq
    obtain ⟨time, htime⟩ := Option.isSome_iff_exists.mp hheld
    rw [htime, Option.getD_some]
  · rfl
  · subst heq
    rw [SortedMap.find?_insert_self, Option.not_isSome_iff_eq_none.mp hheld, Option.getD_none]
  · exact SortedMap.find?_insert_of_ne _ _ (Ne.symm heq)

theorem find?_foldl_schedule (now : Instant) (keys : List Key) (due : SortedMap Key Instant)
    (k : Key) :
    (keys.foldl (schedule now) due).find? k =
      if k ∈ keys then some ((due.find? k).getD now) else due.find? k := by
  induction keys generalizing due with
  | nil => simp
  | cons key keys ih =>
    rw [List.foldl_cons, ih, find?_schedule]
    by_cases hkey : k = key
    · subst hkey
      simp
    · simp [hkey]

/-- After a message the sources have times, those that had one before the same, and no other
key has one. -/
theorem find?_apply (t : BindingTable) (first : Bool) (received : List Binding) (now : Instant)
    (key : Key) :
    (t.apply first received now).nextDue.find? key =
      if key ∈ sourceKeys (t.apply first received now).bindings then
        some ((t.nextDue.find? key).getD now)
      else none := by
  unfold apply
  simp only
  generalize received.foldl merge (if first then [] else t.bindings) = bindings
  rw [find?_foldl_schedule, SortedMap.find?_filter]
  split_ifs with hmem
  · cases t.nextDue.find? key <;> simp [Option.filter, hmem]
  · cases t.nextDue.find? key <;> simp [Option.filter, hmem]

theorem mem_sourceKeys_apply (t : BindingTable) (first : Bool) (received : List Binding)
    (now : Instant) (key : Key) :
    key ∈ sourceKeys (t.apply first received now).bindings ↔
      first = false ∧ key ∈ sourceKeys t.bindings ∨ key ∈ sourceKeys received := by
  unfold apply
  simp only
  rw [mem_sourceKeys_foldl_merge]
  cases first <;> simp [sourceKeys]

/-! ## Sendings -/

/-- Whether a key has a time that has come. -/
def isDue (due : SortedMap Key Instant) (now : Instant) (key : Key) : Bool :=
  (due.find? key).any fun time => decide (time ≤ now)

theorem send_eq (now : Instant) (due : SortedMap Key Instant) (sent : List Key) (b : Binding) :
    send now (due, sent) b =
      if isDue due now b.key then
        (due.insert b.key (now + Span.ofMs b.rate.toNat), sent ++ [b.key])
      else (due, sent) := by
  unfold send isDue
  cases due.find? b.key with
  | none => rfl
  | some time => simp

theorem isDue_insert_of_ne (due : SortedMap Key Instant) (now time : Instant) {key k : Key}
    (h : k ≠ key) : isDue (due.insert key time) now k = isDue due now k := by
  unfold isDue
  rw [SortedMap.find?_insert_of_ne _ _ (Ne.symm h)]

/-- Serving sources with different keys serves those that were due at the start. -/
theorem foldl_send_sent (now : Instant) (l : List Binding) (hkeys : (l.map (·.key)).Nodup)
    (due : SortedMap Key Instant) (sent : List Key) :
    (l.foldl (send now) (due, sent)).2 =
      sent ++ (l.map (·.key)).filter fun key => isDue due now key := by
  induction l generalizing due sent with
  | nil => simp
  | cons b l ih =>
    rw [List.map_cons, List.nodup_cons] at hkeys
    rw [List.foldl_cons, send_eq, List.map_cons, List.filter_cons]
    split_ifs with hdue
    · rw [ih hkeys.2, List.append_assoc, List.singleton_append]
      congr 2
      refine List.filter_congr fun k hk => ?_
      rw [isDue_insert_of_ne]
      rintro rfl
      exact hkeys.1 hk
    · exact ih hkeys.2 due sent

theorem foldl_send_of_not_mem (now : Instant) (l : List Binding) (due : SortedMap Key Instant)
    (sent : List Key) {key : Key} (h : ∀ b ∈ l, b.key ≠ key) :
    (l.foldl (send now) (due, sent)).1.find? key = due.find? key := by
  induction l generalizing due sent with
  | nil => rfl
  | cons b l ih =>
    have hb : b.key ≠ key := h b List.mem_cons_self
    have hrest : ∀ c ∈ l, c.key ≠ key := fun c hc => h c (List.mem_cons_of_mem _ hc)
    rw [List.foldl_cons, send_eq]
    split_ifs with hdue
    · rw [ih _ _ hrest, SortedMap.find?_insert_of_ne _ _ hb]
    · exact ih _ _ hrest

/-- The time of a source that is served moves by its rate; that of another stays. -/
theorem foldl_send_due (now : Instant) (l : List Binding) (hkeys : (l.map (·.key)).Nodup)
    (due : SortedMap Key Instant) (sent : List Key) {b : Binding} (hb : b ∈ l) :
    (l.foldl (send now) (due, sent)).1.find? b.key =
      if isDue due now b.key then some (now + Span.ofMs b.rate.toNat) else due.find? b.key := by
  induction l generalizing due sent with
  | nil => cases hb
  | cons c l ih =>
    rw [List.map_cons, List.nodup_cons] at hkeys
    rw [List.foldl_cons, send_eq]
    rcases List.mem_cons.mp hb with rfl | hb
    · have hrest : ∀ d ∈ l, d.key ≠ b.key := fun d hd heq =>
        hkeys.1 (heq ▸ List.mem_map_of_mem hd)
      split_ifs with hdue
      · rw [foldl_send_of_not_mem now l _ _ hrest, SortedMap.find?_insert_self]
      · exact foldl_send_of_not_mem now l _ _ hrest
    · have hne : b.key ≠ c.key := fun heq => hkeys.1 (heq ▸ List.mem_map_of_mem hb)
      split_ifs with hdue hdue' hdue'
      · rw [ih hkeys.2 _ _ hb, isDue_insert_of_ne _ _ _ hne, if_pos hdue']
      · rw [ih hkeys.2 _ _ hb, isDue_insert_of_ne _ _ _ hne, if_neg hdue',
          SortedMap.find?_insert_of_ne _ _ (Ne.symm hne)]
      · rw [ih hkeys.2 _ _ hb, if_pos hdue']
      · rw [ih hkeys.2 _ _ hb, if_neg hdue']

@[simp] theorem bindings_dueSources (t : BindingTable) (now : Instant) :
    (t.dueSources now).1.bindings = t.bindings := rfl

/-- The keys that are sent are those of the sources that are due, in the order of the
bindings. -/
theorem dueSources_keys {t : BindingTable} (h : Unambiguous t.bindings) (now : Instant) :
    (t.dueSources now).2 = (sourceKeys t.bindings).filter fun key => isDue t.nextDue now key :=
  foldl_send_sent now t.sources h.nodup_sources t.nextDue []

theorem find?_dueSources {t : BindingTable} (h : Unambiguous t.bindings) (now : Instant)
    {b : Binding} (hb : b ∈ t.bindings) (hrole : b.role = .source) :
    (t.dueSources now).1.nextDue.find? b.key =
      if isDue t.nextDue now b.key then some (now + Span.ofMs b.rate.toNat)
      else t.nextDue.find? b.key :=
  foldl_send_due now t.sources h.nodup_sources t.nextDue []
    (List.mem_filter.mpr ⟨hb, beq_iff_eq.mpr hrole⟩)

theorem find?_dueSources_of_mem {t : BindingTable} (h : Unambiguous t.bindings) {now : Instant}
    {b : Binding} (hb : b ∈ t.bindings) (hrole : b.role = .source)
    (hsent : b.key ∈ (t.dueSources now).2) :
    (t.dueSources now).1.nextDue.find? b.key = some (now + Span.ofMs b.rate.toNat) := by
  rw [dueSources_keys h] at hsent
  rw [find?_dueSources h now hb hrole, if_pos (List.mem_filter.mp hsent).2]

/-- A key that is not sent keeps its time. -/
theorem find?_dueSources_of_not_mem {t : BindingTable} (h : Unambiguous t.bindings)
    {now : Instant} {key : Key} (hkey : key ∉ (t.dueSources now).2) :
    (t.dueSources now).1.nextDue.find? key = t.nextDue.find? key := by
  by_cases hsource : key ∈ sourceKeys t.bindings
  · obtain ⟨b, hb, hrole, rfl⟩ := mem_sourceKeys.mp hsource
    rw [find?_dueSources h now hb hrole, if_neg]
    intro hdue
    rw [dueSources_keys h] at hkey
    exact hkey (List.mem_filter.mpr ⟨hsource, hdue⟩)
  · refine foldl_send_of_not_mem now t.sources t.nextDue [] ?_
    rintro b hb rfl
    exact hsource (List.mem_map_of_mem hb)

end BindingTable

end LinkFabric
