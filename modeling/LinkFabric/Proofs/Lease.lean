import Mathlib.Data.List.Induction

/-!
# Leases

The leader keeps what it is told for a number of cycles. Each telling grants a new lease, a
cycle takes one from every lease, and a lease that has none left is gone. How many are left
follows from the history alone: from the last grant and the cycles after it.

Main results:

* `Lease.lastGranted_append_singleton`: what one more event does to the age of a grant.
* `Lease.left_granted_self`, `Lease.left_granted_of_ne`, `Lease.left_cycle`,
  `Lease.left_wiped`, `Lease.left_nothing`: what it does to the cycles that are left.
-/

namespace LinkFabric

/-- A history with one event more, cut at an event: either the cut is at the new event, or the
new event is the last one after the cut. -/
theorem append_singleton_eq_append_cons_iff {α : Type} {history before after : List α} {e x : α} :
    history ++ [e] = before ++ x :: after ↔
      (after = [] ∧ history = before ∧ e = x) ∨
        ∃ init, after = init ++ [e] ∧ history = before ++ x :: init := by
  constructor
  · intro heq
    rcases List.eq_nil_or_concat after with rfl | ⟨init, last, rfl⟩
    · obtain ⟨hhistory, he⟩ := List.append_inj' heq rfl
      exact .inl ⟨rfl, hhistory, List.head_eq_of_cons_eq he⟩
    · rw [List.concat_eq_append, ← List.cons_append, ← List.append_assoc] at heq
      obtain ⟨hhistory, he⟩ := List.append_inj' heq rfl
      rw [List.concat_eq_append, List.head_eq_of_cons_eq he]
      exact .inr ⟨init, rfl, hhistory⟩
  · rintro (⟨rfl, rfl, rfl⟩ | ⟨init, rfl, rfl⟩)
    · rfl
    · simp

/-- An event of a history with one event more, and what holds of all that came after it: it is
the new event, or it was there before and the new one came after it. -/
theorem exists_cut_append_singleton {α : Type} {history : List α} {e x : α}
    {P : List α → Prop} :
    (∃ before after, history ++ [e] = before ++ x :: after ∧ P after) ↔
      e = x ∧ P [] ∨ ∃ before after, history = before ++ x :: after ∧ P (after ++ [e]) := by
  constructor
  · rintro ⟨before, after, heq, hafter⟩
    rcases append_singleton_eq_append_cons_iff.mp heq with ⟨rfl, -, he⟩ | ⟨init, rfl, hhistory⟩
    · exact .inl ⟨he, hafter⟩
    · exact .inr ⟨before, init, hhistory, hafter⟩
  · rintro (⟨rfl, hafter⟩ | ⟨before, after, rfl, hafter⟩)
    · exact ⟨history, [], rfl, hafter⟩
    · exact ⟨before, after ++ [e], by simp, hafter⟩

namespace Lease

/-- What can happen to the leases of some holders. -/
inductive Event (κ : Type) where
  | granted (holder : κ)
  | cycle
  | wiped
  | nothing
  deriving DecidableEq

variable {κ : Type} [DecidableEq κ]

/-- The last grant to a holder came `age` cycles ago, and leases were not wiped since. -/
def LastGranted (history : List (Event κ)) (holder : κ) (age : Nat) : Prop :=
  ∃ before after, history = before ++ .granted holder :: after ∧
    .granted holder ∉ after ∧ .wiped ∉ after ∧ after.count .cycle = age

/-- A holder has `n` of the `full` cycles of its last grant left. -/
def Left (full : Nat) (history : List (Event κ)) (holder : κ) (n : Nat) : Prop :=
  ∃ age, LastGranted history holder age ∧ age < full ∧ n = full - age

/-! ## One event more -/

theorem not_lastGranted_nil {holder : κ} {age : Nat} : ¬ LastGranted [] holder age := by
  rintro ⟨before, after, heq, _⟩
  simp at heq

/-- A grant is the last one, or it was the last one before and the event is neither a grant to
the same holder nor a wiping. -/
theorem lastGranted_append_singleton {history : List (Event κ)} {e : Event κ} {holder : κ}
    {age : Nat} :
    LastGranted (history ++ [e]) holder age ↔
      e = .granted holder ∧ age = 0 ∨
        e ≠ .granted holder ∧ e ≠ .wiped ∧
          ∃ a, LastGranted history holder a ∧ age = a + [e].count .cycle := by
  unfold LastGranted
  rw [exists_cut_append_singleton]
  refine or_congr (by simp [eq_comm]) ?_
  simp only [List.mem_append, List.mem_singleton, not_or, List.count_append]
  constructor
  · rintro ⟨before, after, hhistory, ⟨hafter, hgrant⟩, ⟨hwiped, hwipe⟩, hage⟩
    exact ⟨Ne.symm hgrant, Ne.symm hwipe, _, ⟨before, after, hhistory, hafter, hwiped, rfl⟩,
      hage.symm⟩
  · rintro ⟨hgrant, hwipe, _, ⟨before, after, hhistory, hafter, hwiped, rfl⟩, hage⟩
    exact ⟨before, after, hhistory, ⟨hafter, Ne.symm hgrant⟩, ⟨hwiped, Ne.symm hwipe⟩, hage.symm⟩

section

variable {full : Nat} {history : List (Event κ)} {holder : κ} {n : Nat}

theorem not_left_nil : ¬ Left full [] holder n := by
  rintro ⟨age, hgrant, _⟩
  exact not_lastGranted_nil hgrant

theorem left_granted_self (hfull : 0 < full) :
    Left full (history ++ [.granted holder]) holder n ↔ n = full := by
  simp [Left, lastGranted_append_singleton, hfull]

theorem left_granted_of_ne {other : κ} (h : other ≠ holder) :
    Left full (history ++ [.granted other]) holder n ↔ Left full history holder n := by
  simp [Left, lastGranted_append_singleton, h]

theorem left_nothing :
    Left full (history ++ [.nothing]) holder n ↔ Left full history holder n := by
  simp [Left, lastGranted_append_singleton]

theorem left_wiped : ¬ Left full (history ++ [.wiped]) holder n := by
  simp [Left, lastGranted_append_singleton]

/-- A cycle takes one, and a lease without any left is gone. -/
theorem left_cycle :
    Left full (history ++ [.cycle]) holder n ↔ Left full history holder (n + 1) ∧ 0 < n := by
  have hage : ∀ age, LastGranted (history ++ [.cycle]) holder age ↔
      ∃ a, LastGranted history holder a ∧ age = a + 1 := by
    intro age
    simp [lastGranted_append_singleton]
  constructor
  · rintro ⟨age, hgrant, hlt, rfl⟩
    obtain ⟨a, hearlier, rfl⟩ := (hage age).mp hgrant
    exact ⟨⟨a, hearlier, by omega, by omega⟩, by omega⟩
  · rintro ⟨⟨a, hgrant, hlt, hleft⟩, hpos⟩
    exact ⟨a + 1, (hage _).mpr ⟨a, hgrant, rfl⟩, by omega, by omega⟩

end

end Lease

end LinkFabric
