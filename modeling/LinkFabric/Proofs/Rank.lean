import LinkFabric.Election.Rank
import Mathlib.Tactic.SplitIfs

/-!
# The order of ranks

`Rank.outranks` compares a priority and, on a tie, a device number. It is the order of
a single number, the weight of a rank, so it is a strict total order, and the best of
the devices heard of is well defined.

Main results:

* `Rank.outranks_iff`: one rank outranks another iff it weighs more.
* `Election.bestPeer_spec`: the best peer may lead and is outranked by nobody listed.
* `Election.bestPeer_eq_none_iff`: there is none iff nobody listed may lead.
-/

namespace LinkFabric

namespace Rank

/-! ## Weight -/

/-- The priority, and below it the device number counted from the top. -/
def weight (r : Rank) : Nat :=
  r.priority.toNat * UInt64.size + (UInt64.size - 1 - r.device.toNat)

theorem weight_lt_iff (a b : Rank) :
    b.weight < a.weight ↔
      b.priority.toNat < a.priority.toNat ∨
        a.priority.toNat = b.priority.toNat ∧ a.device.toNat < b.device.toNat := by
  have ha := a.device.toNat_lt_size
  have hb := b.device.toNat_lt_size
  unfold weight
  simp only [UInt64.size] at *
  omega

theorem outranks_iff {a b : Rank} : a.outranks b = true ↔ b.weight < a.weight := by
  rw [weight_lt_iff]
  simp only [outranks, Bool.or_eq_true, Bool.and_eq_true, decide_eq_true_eq, beq_iff_eq,
    UInt16.lt_iff_toNat_lt, UInt64.lt_iff_toNat_lt, ← UInt16.toNat_inj]

theorem not_outranks_iff {a b : Rank} : a.outranks b = false ↔ a.weight ≤ b.weight := by
  rw [← Bool.not_eq_true, outranks_iff, Nat.not_lt]

/-- Ranks of one weight are the same. -/
theorem eq_of_weight_eq {a b : Rank} (h : a.weight = b.weight) : a = b := by
  have hab := weight_lt_iff a b
  have hba := weight_lt_iff b a
  obtain ⟨pa, da⟩ := a
  obtain ⟨pb, db⟩ := b
  have hp : pa = pb := UInt16.toNat_inj.mp (by simp only at hab hba; omega)
  have hd : da = db := UInt64.toNat_inj.mp (by simp only at hab hba; omega)
  rw [hp, hd]

/-! ## A strict total order -/

theorem outranks_trans {a b c : Rank} (hab : a.outranks b = true) (hbc : b.outranks c = true) :
    a.outranks c = true := by
  rw [outranks_iff] at *
  omega

theorem outranks_asymm {a b : Rank} (h : a.outranks b = true) : b.outranks a = false := by
  rw [outranks_iff] at h
  rw [not_outranks_iff]
  omega

theorem not_outranks_both {a b : Rank} (h : a.outranks b = true) : ¬ b.outranks a = true :=
  Bool.eq_false_iff.mp (outranks_asymm h)

/-- Of two different devices one outranks the other. -/
theorem outranks_or_outranks {a b : Rank} (h : a.device ≠ b.device) :
    a.outranks b = true ∨ b.outranks a = true := by
  have hne : a.weight ≠ b.weight := fun hw => h (by rw [eq_of_weight_eq hw])
  rw [outranks_iff, outranks_iff]
  omega

/-- A rank with a priority outranks every rank without one. -/
theorem outranks_of_priority {a b : Rank} (ha : 0 < a.priority) (hb : b.priority = 0) :
    a.outranks b = true := by
  rw [outranks_iff, weight_lt_iff, hb]
  exact Or.inl (UInt16.lt_iff_toNat_lt.mp ha)

end Rank

namespace Election

/-! ## The best peer -/

theorem prefer_eq (best next : DeviceId × Peer) :
    prefer best next = best ∧ (next.2.rank next.1).weight ≤ (best.2.rank best.1).weight ∨
      prefer best next = next ∧ (best.2.rank best.1).weight < (next.2.rank next.1).weight := by
  unfold prefer
  split_ifs with h
  · exact Or.inr ⟨rfl, Rank.outranks_iff.mp h⟩
  · exact Or.inl ⟨rfl, Rank.not_outranks_iff.mp (by simpa using h)⟩

/-- Preferring along a list ends at one of the devices. -/
theorem foldl_prefer_mem (l : List (DeviceId × Peer)) (p : DeviceId × Peer) :
    l.foldl prefer p ∈ p :: l := by
  induction l generalizing p with
  | nil => exact List.mem_cons_self
  | cons next l ih =>
    rw [List.foldl_cons]
    rcases List.mem_cons.mp (ih (prefer p next)) with h | h
    · rcases prefer_eq p next with ⟨heq, _⟩ | ⟨heq, _⟩
      · rw [h, heq]
        exact List.mem_cons_self
      · rw [h, heq]
        exact List.mem_cons_of_mem _ List.mem_cons_self
    · exact List.mem_cons_of_mem _ (List.mem_cons_of_mem _ h)

/-- None of the devices weighs more than the one preferred. -/
theorem weight_le_foldl_prefer (l : List (DeviceId × Peer)) (p : DeviceId × Peer) :
    ∀ q ∈ p :: l,
      (q.2.rank q.1).weight ≤ ((l.foldl prefer p).2.rank (l.foldl prefer p).1).weight := by
  induction l generalizing p with
  | nil => simp
  | cons next l ih =>
    intro q hq
    rw [List.foldl_cons]
    have hhead := ih (prefer p next) _ List.mem_cons_self
    have htwo := prefer_eq p next
    rcases List.mem_cons.mp hq with rfl | hq
    · rcases htwo with ⟨heq, _⟩ | ⟨heq, hlt⟩ <;> rw [heq] at hhead ⊢ <;> omega
    · rcases List.mem_cons.mp hq with rfl | hq
      · rcases htwo with ⟨heq, hle⟩ | ⟨heq, _⟩ <;> rw [heq] at hhead ⊢ <;> omega
      · exact ih (prefer p next) q (List.mem_cons_of_mem _ hq)

theorem bestPeer_eq_none_iff {l : List (DeviceId × Peer)} :
    bestPeer l = none ↔ ∀ p ∈ l, p.2.priority = 0 := by
  unfold bestPeer
  split
  · rename_i h
    rw [List.filter_eq_nil_iff] at h
    simp only [true_iff]
    intro p hp
    have := h p hp
    simp only [decide_eq_true_eq, UInt16.not_lt] at this
    exact UInt16.le_zero_iff.mp this
  · rename_i p rest h
    have hp : p ∈ l.filter fun p => decide (0 < p.2.priority) := h ▸ List.mem_cons_self
    obtain ⟨hp, hpos⟩ := List.mem_filter.mp hp
    simp only [reduceCtorEq, false_iff]
    intro hall
    simp [hall p hp] at hpos

/-- The best peer is listed, may lead, and is outranked by nobody listed. -/
theorem bestPeer_spec {l : List (DeviceId × Peer)} {p : DeviceId × Peer}
    (h : bestPeer l = some p) :
    p ∈ l ∧ 0 < p.2.priority ∧ ∀ q ∈ l, (q.2.rank q.1).outranks (p.2.rank p.1) = false := by
  unfold bestPeer at h
  split at h
  · cases h
  · rename_i first rest hfilter
    have hmem := foldl_prefer_mem rest first
    have hmax := weight_le_foldl_prefer rest first
    rw [Option.some.inj h, ← hfilter] at hmem hmax
    obtain ⟨hmem, hpos⟩ := List.mem_filter.mp hmem
    have hpos : 0 < p.2.priority := of_decide_eq_true hpos
    refine ⟨hmem, hpos, ?_⟩
    intro q hq
    by_cases hq0 : 0 < q.2.priority
    · exact Rank.not_outranks_iff.mpr (hmax q (List.mem_filter.mpr ⟨hq, decide_eq_true hq0⟩))
    · have hzero : q.2.priority = 0 := UInt16.le_zero_iff.mp (UInt16.not_lt.mp hq0)
      exact Rank.outranks_asymm (Rank.outranks_of_priority hpos hzero)

end Election

end LinkFabric
