import Mathlib.Data.List.Basic

/-!
# The moments of a history

What has become of an event depends on what came before it, which decides whether it had any
effect, and on what came after it, which may have undone the effect. A moment of a history is
an event with both; the moments of a history are its events, in order, seen in this way.

Main results:

* `moments_append_singleton`: one event more comes after every moment and is a moment itself.
* `mem_moments_iff`: the moments of a history are the ways to cut it at an event.
* `brought_append_singleton`, `mem_brought_iff`: the same for what the events of a history bring.
* `pairwise_moments`: earlier moments have earlier events, and more after them.
-/

namespace LinkFabric

variable {α β : Type}

/-- An event of a history, with the events before it and after it. -/
structure Moment (α : Type) where
  before : List α
  event : α
  after : List α

/-- A moment when one event more has come after it. -/
def Moment.followedBy (m : Moment α) (e : α) : Moment α := { m with after := m.after ++ [e] }

/-- The moments of a history that goes on after some events. -/
def momentsFrom (before : List α) : List α → List (Moment α)
  | [] => []
  | e :: after => ⟨before, e, after⟩ :: momentsFrom (before ++ [e]) after

/-- The moments of a history, in order. -/
def moments (history : List α) : List (Moment α) := momentsFrom [] history

theorem momentsFrom_append_singleton (before history : List α) (e : α) :
    momentsFrom before (history ++ [e]) =
      (momentsFrom before history).map (·.followedBy e) ++ [⟨before ++ history, e, []⟩] := by
  induction history generalizing before with
  | nil => simp [momentsFrom]
  | cons x history ih =>
    rw [List.cons_append, momentsFrom, ih, momentsFrom, List.append_assoc]
    rfl

/-- One event more comes after every moment, and is the last moment itself. -/
theorem moments_append_singleton (history : List α) (e : α) :
    moments (history ++ [e]) = (moments history).map (·.followedBy e) ++ [⟨history, e, []⟩] :=
  momentsFrom_append_singleton [] history e

theorem mem_momentsFrom_iff {before history : List α} {m : Moment α} :
    m ∈ momentsFrom before history ↔
      ∃ since, m.before = before ++ since ∧ history = since ++ m.event :: m.after := by
  induction history generalizing before with
  | nil => simp [momentsFrom]
  | cons x history ih =>
    rw [momentsFrom, List.mem_cons, ih]
    constructor
    · rintro (rfl | ⟨since, hbefore, rfl⟩)
      · exact ⟨[], by simp, rfl⟩
      · exact ⟨x :: since, by simp [hbefore], rfl⟩
    · rintro ⟨since, hbefore, heq⟩
      cases since with
      | nil =>
        obtain ⟨rfl, rfl⟩ := List.cons_eq_cons.mp heq
        left
        cases m
        simpa using hbefore
      | cons y since =>
        obtain ⟨rfl, rfl⟩ := List.cons_eq_cons.mp heq
        exact .inr ⟨since, by simp [hbefore], rfl⟩

/-- The moments of a history are the ways to cut it at an event. -/
theorem mem_moments_iff {history : List α} {m : Moment α} :
    m ∈ moments history ↔ history = m.before ++ m.event :: m.after := by
  simp [moments, mem_momentsFrom_iff]

/-- What the events of a history bring, in view of what came before: in order, and each with what
came after. -/
def brought (g : List α → α → Option β) (history : List α) : List (β × List α) :=
  (moments history).filterMap fun m => (g m.before m.event).map (·, m.after)

theorem brought_append_singleton (g : List α → α → Option β) (history : List α) (e : α) :
    brought g (history ++ [e]) =
      (brought g history).map (fun p => (p.1, p.2 ++ [e])) ++ (g history e).toList.map (·, []) := by
  rw [brought, moments_append_singleton, List.filterMap_append, List.filterMap_map, brought,
    List.map_filterMap]
  congr 1
  · refine List.filterMap_congr fun m _ => ?_
    cases hbrought : g m.before m.event <;> simp [Moment.followedBy, hbrought]
  · cases hbrought : g history e <;> simp [hbrought]

theorem mem_brought_iff {g : List α → α → Option β} {history after : List α} {b : β} :
    (b, after) ∈ brought g history ↔
      ∃ before e, history = before ++ e :: after ∧ g before e = some b := by
  simp only [brought, List.mem_filterMap, mem_moments_iff, Option.map_eq_some_iff, Prod.mk.injEq]
  constructor
  · rintro ⟨m, hcut, _, hb, rfl, rfl⟩
    exact ⟨m.before, m.event, hcut, hb⟩
  · rintro ⟨before, e, hcut, hb⟩
    exact ⟨⟨before, e, after⟩, hcut, b, hb, rfl, rfl⟩

theorem pairwise_momentsFrom {R : α → α → Prop} (before : List α) {history : List α}
    (h : history.Pairwise R) :
    (momentsFrom before history).Pairwise fun m m' =>
      R m.event m'.event ∧ m'.after <:+ m.after := by
  induction history generalizing before with
  | nil => exact .nil
  | cons x history ih =>
    obtain ⟨hhead, htail⟩ := List.pairwise_cons.mp h
    refine List.pairwise_cons.mpr ⟨fun m hm => ?_, ih _ htail⟩
    obtain ⟨since, -, rfl⟩ := mem_momentsFrom_iff.mp hm
    exact ⟨hhead _ (by simp), ⟨since ++ [m.event], by simp⟩⟩

/-- Of two moments, the earlier has the earlier event, and all after it that is after the later
one. -/
theorem pairwise_moments {R : α → α → Prop} {history : List α} (h : history.Pairwise R) :
    (moments history).Pairwise fun m m' => R m.event m'.event ∧ m'.after <:+ m.after :=
  pairwise_momentsFrom [] h

end LinkFabric
