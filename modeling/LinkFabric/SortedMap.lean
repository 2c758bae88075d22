/-!
# Finite maps in ascending key order

A map is a list of pairs whose keys strictly ascend, so two maps with the same
contents are the same list and every walk over a map meets its keys in order.
Keys are compared by a numeric rank.

Main statements:

* `SortedMap.find?_insert`: an inserted key holds the new value, and every other
  key holds what it held before.
* `SortedMap.mem_entries_iff`: looking a key up and finding its pair in the list
  are the same thing.
* `SortedMap.find?_filterMap`: updating or dropping values pair by pair acts on
  each key by itself.
-/

namespace LinkFabric

/-- Keys that a number tells apart. Maps list their keys by ascending rank. -/
class Ranked (κ : Type) where
  rank : κ → Nat
  eq_of_rank_eq : ∀ {a b : κ}, rank a = rank b → a = b

instance : Ranked UInt32 := ⟨UInt32.toNat, UInt32.toNat.inj⟩

instance : Ranked UInt64 := ⟨UInt64.toNat, UInt64.toNat.inj⟩

/-- A finite map from `κ` to `α`, as a list of pairs with strictly ascending keys. -/
structure SortedMap (κ α : Type) [Ranked κ] where
  entries : List (κ × α)
  ascending : entries.Pairwise fun a b => Ranked.rank a.1 < Ranked.rank b.1

namespace SortedMap

variable {κ α β : Type} [Ranked κ]

open Ranked (rank)

/-- The map without pairs. -/
def empty : SortedMap κ α := ⟨[], .nil⟩

instance : Inhabited (SortedMap κ α) := ⟨empty⟩

/-- The keys in ascending order. -/
def keys (m : SortedMap κ α) : List κ := m.entries.map (·.1)

/-- The values in the order of their keys. -/
def values (m : SortedMap κ α) : List α := m.entries.map (·.2)

/-- The number of pairs. -/
def size (m : SortedMap κ α) : Nat := m.entries.length

/-- Whether the map has no pairs. -/
def isEmpty (m : SortedMap κ α) : Bool := m.entries.isEmpty

/-- The value of the first pair with the given key. -/
def findIn (k : κ) : List (κ × α) → Option α
  | [] => none
  | (k', v) :: rest => if rank k' = rank k then some v else findIn k rest

/-- The value held for a key. -/
def find? (m : SortedMap κ α) (k : κ) : Option α := findIn k m.entries

/-- Whether a key holds a value. -/
def contains (m : SortedMap κ α) (k : κ) : Bool := (m.find? k).isSome

/-! ## Insertion -/

/-- Puts a pair at its place in an ascending list, over a pair with the same key. -/
def insertIn (k : κ) (v : α) : List (κ × α) → List (κ × α)
  | [] => [(k, v)]
  | (k', v') :: rest =>
    if rank k < rank k' then (k, v) :: (k', v') :: rest
    else if rank k = rank k' then (k, v) :: rest
    else (k', v') :: insertIn k v rest

theorem fst_mem_insertIn {k : κ} {v : α} {l : List (κ × α)} {p : κ × α}
    (h : p ∈ insertIn k v l) : p = (k, v) ∨ p ∈ l := by
  induction l with
  | nil => simpa [insertIn] using h
  | cons q rest ih =>
    obtain ⟨k', v'⟩ := q
    simp only [insertIn] at h
    split at h
    · simpa using h
    · split at h
      · rcases List.mem_cons.mp h with h | h
        · exact Or.inl h
        · exact Or.inr (List.mem_cons_of_mem _ h)
      · rcases List.mem_cons.mp h with h | h
        · exact Or.inr (h ▸ List.mem_cons_self)
        · rcases ih h with h | h
          · exact Or.inl h
          · exact Or.inr (List.mem_cons_of_mem _ h)

theorem ascending_insertIn (k : κ) (v : α) {l : List (κ × α)}
    (h : l.Pairwise fun a b => rank a.1 < rank b.1) :
    (insertIn k v l).Pairwise fun a b => rank a.1 < rank b.1 := by
  induction l with
  | nil => simp [insertIn]
  | cons q rest ih =>
    obtain ⟨k', v'⟩ := q
    obtain ⟨hhead, htail⟩ := List.pairwise_cons.mp h
    simp only [insertIn]
    split
    · rename_i hlt
      refine List.pairwise_cons.mpr ⟨?_, h⟩
      intro p hp
      rcases List.mem_cons.mp hp with rfl | hp
      · exact hlt
      · exact Nat.lt_trans hlt (hhead p hp)
    · split
      · rename_i _ heq
        refine List.pairwise_cons.mpr ⟨?_, htail⟩
        intro p hp
        have := hhead p hp
        simp only at this ⊢
        omega
      · rename_i hnlt hne
        refine List.pairwise_cons.mpr ⟨?_, ih htail⟩
        intro p hp
        rcases fst_mem_insertIn hp with rfl | hp
        · simp only
          omega
        · exact hhead p hp

/-- Makes `k` hold `v`. -/
def insert (m : SortedMap κ α) (k : κ) (v : α) : SortedMap κ α :=
  ⟨insertIn k v m.entries, ascending_insertIn k v m.ascending⟩

theorem size_insert_le (m : SortedMap κ α) (k : κ) (v : α) :
    (m.insert k v).size ≤ m.size + 1 := by
  have hlength : ∀ l : List (κ × α), (insertIn k v l).length ≤ l.length + 1 := by
    intro l
    induction l with
    | nil => exact Nat.le_refl _
    | cons p rest ih =>
      rw [insertIn]
      split
      · exact Nat.le_refl _
      · split
        · exact Nat.le_succ _
        · exact Nat.succ_le_succ ih
  exact hlength m.entries

theorem findIn_insertIn (k k₀ : κ) (v : α) (l : List (κ × α)) :
    findIn k₀ (insertIn k v l) = if rank k = rank k₀ then some v else findIn k₀ l := by
  induction l with
  | nil => simp [insertIn, findIn]
  | cons q rest ih =>
    obtain ⟨k', v'⟩ := q
    simp only [insertIn]
    split
    · simp [findIn]
    · split
      · rename_i _ heq
        simp only [findIn, heq]
        split <;> rfl
      · rename_i _ hne
        simp only [findIn, ih]
        by_cases h₀ : rank k' = rank k₀
        · have : rank k ≠ rank k₀ := by omega
          simp [h₀, this]
        · simp [h₀]

theorem find?_insert (m : SortedMap κ α) (k k₀ : κ) (v : α) :
    (m.insert k v).find? k₀ = if rank k = rank k₀ then some v else m.find? k₀ :=
  findIn_insertIn k k₀ v m.entries

@[simp] theorem find?_insert_self (m : SortedMap κ α) (k : κ) (v : α) :
    (m.insert k v).find? k = some v := by
  simp [find?_insert]

theorem find?_insert_of_ne (m : SortedMap κ α) {k k₀ : κ} (v : α) (h : k ≠ k₀) :
    (m.insert k v).find? k₀ = m.find? k₀ := by
  rw [find?_insert, if_neg fun hr => h (Ranked.eq_of_rank_eq hr)]

/-! ## Lookup and membership -/

theorem findIn_eq_none_of_lt {k : κ} {l : List (κ × α)} (h : ∀ p ∈ l, rank k < rank p.1) :
    findIn k l = none := by
  induction l with
  | nil => rfl
  | cons q rest ih =>
    obtain ⟨k', v'⟩ := q
    have hk : rank k < rank k' := h (k', v') List.mem_cons_self
    rw [findIn, if_neg (by omega)]
    exact ih fun p hp => h p (List.mem_cons_of_mem _ hp)

/-- A map does not grow when a key that it has gets a new value. -/
theorem size_insert_of_contains {m : SortedMap κ α} {k : κ} (h : m.contains k = true) (v : α) :
    (m.insert k v).size = m.size := by
  have hlength : ∀ l : List (κ × α), (l.Pairwise fun a b => rank a.1 < rank b.1) →
      (findIn k l).isSome = true → (insertIn k v l).length = l.length := by
    intro l
    induction l with
    | nil =>
      intro _ hfind
      cases hfind
    | cons q rest ih =>
      intro hasc hfind
      obtain ⟨k', v'⟩ := q
      obtain ⟨hhead, htail⟩ := List.pairwise_cons.mp hasc
      rw [findIn] at hfind
      rw [insertIn]
      split
      · -- All keys are above this one, so it is not among them.
        rename_i hlt
        rw [if_neg (by omega),
          findIn_eq_none_of_lt fun p hp => Nat.lt_trans hlt (hhead p hp)] at hfind
        cases hfind
      · split
        · rfl
        · rename_i _ hne
          rw [if_neg (Ne.symm hne)] at hfind
          rw [List.length_cons, List.length_cons, ih htail hfind]
  exact hlength m.entries m.ascending h

theorem mem_iff_findIn {k : κ} {v : α} {l : List (κ × α)}
    (h : l.Pairwise fun a b => rank a.1 < rank b.1) :
    (k, v) ∈ l ↔ findIn k l = some v := by
  induction l with
  | nil => simp [findIn]
  | cons q rest ih =>
    obtain ⟨k', v'⟩ := q
    obtain ⟨hhead, htail⟩ := List.pairwise_cons.mp h
    rw [findIn, List.mem_cons]
    split
    · rename_i heq
      obtain rfl := Ranked.eq_of_rank_eq heq
      have hrest : (k', v) ∉ rest := fun hmem => by
        have := hhead (k', v) hmem
        simp at this
      simp [hrest, eq_comm]
    · rename_i hne
      have hk : (k, v) ≠ (k', v') := fun heq => hne (by rw [(Prod.mk.inj heq).1])
      simp [hk, ih htail]

theorem mem_entries_iff (m : SortedMap κ α) {k : κ} {v : α} :
    (k, v) ∈ m.entries ↔ m.find? k = some v :=
  mem_iff_findIn m.ascending

theorem mem_values_iff (m : SortedMap κ α) {v : α} : v ∈ m.values ↔ ∃ k, m.find? k = some v := by
  simp only [values, List.mem_map, Prod.exists, mem_entries_iff, exists_eq_right]

theorem mem_keys_iff (m : SortedMap κ α) {k : κ} : k ∈ m.keys ↔ ∃ v, m.find? k = some v := by
  simp only [keys, List.mem_map, Prod.exists, mem_entries_iff, exists_and_right, exists_eq_right]

theorem nodup_keys (m : SortedMap κ α) : m.keys.Nodup := by
  refine List.pairwise_map.mpr (m.ascending.imp fun {p q} hlt heq => ?_)
  rw [heq] at hlt
  exact Nat.lt_irrefl _ hlt

@[simp] theorem find?_empty (k : κ) : (empty : SortedMap κ α).find? k = none := rfl

/-! ## Updates pair by pair -/

theorem ascending_filterMap (f : κ → α → Option β) {l : List (κ × α)}
    (h : l.Pairwise fun a b => rank a.1 < rank b.1) :
    (l.filterMap fun p => (f p.1 p.2).map (p.1, ·)).Pairwise fun a b => rank a.1 < rank b.1 := by
  refine h.filterMap _ ?_
  intro p q hpq p' hp' q' hq'
  simp only [Option.map_eq_some_iff] at hp' hq'
  obtain ⟨_, _, rfl⟩ := hp'
  obtain ⟨_, _, rfl⟩ := hq'
  exact hpq

/-- Replaces each value by what `f` makes of it, and drops the pairs where `f` is `none`. -/
def filterMap (m : SortedMap κ α) (f : κ → α → Option β) : SortedMap κ β :=
  ⟨m.entries.filterMap fun p => (f p.1 p.2).map (p.1, ·), ascending_filterMap f m.ascending⟩

/-- Keeps the pairs that satisfy `keep`. -/
def filter (m : SortedMap κ α) (keep : κ → α → Bool) : SortedMap κ α :=
  m.filterMap fun k v => if keep k v then some v else none

/-- Drops a key. -/
def erase (m : SortedMap κ α) (k : κ) : SortedMap κ α :=
  m.filter fun k' _ => rank k' != rank k

theorem find?_filterMap (m : SortedMap κ α) (f : κ → α → Option β) (k : κ) :
    (m.filterMap f).find? k = (m.find? k).bind (f k) := by
  apply Option.ext
  intro v
  rw [← mem_entries_iff]
  simp only [filterMap, List.mem_filterMap, Option.map_eq_some_iff, Option.bind_eq_some_iff]
  constructor
  · rintro ⟨⟨k', a⟩, hmem, b, hb, heq⟩
    obtain ⟨rfl, rfl⟩ := Prod.mk.inj heq
    exact ⟨a, (mem_entries_iff m).mp hmem, hb⟩
  · rintro ⟨a, ha, hv⟩
    exact ⟨(k, a), (mem_entries_iff m).mpr ha, v, hv, rfl⟩

theorem find?_filter (m : SortedMap κ α) (keep : κ → α → Bool) (k : κ) :
    (m.filter keep).find? k = (m.find? k).filter (keep k) := by
  rw [filter, find?_filterMap]
  cases m.find? k <;> simp [Option.filter]

theorem find?_erase (m : SortedMap κ α) (k k₀ : κ) :
    (m.erase k).find? k₀ = if rank k₀ = rank k then none else m.find? k₀ := by
  rw [erase, find?_filter]
  by_cases h : rank k₀ = rank k <;> cases m.find? k₀ <;> simp [h, Option.filter]

@[simp] theorem find?_erase_self (m : SortedMap κ α) (k : κ) : (m.erase k).find? k = none := by
  simp [find?_erase]

theorem find?_erase_of_ne (m : SortedMap κ α) {k k₀ : κ} (h : k₀ ≠ k) :
    (m.erase k).find? k₀ = m.find? k₀ := by
  rw [find?_erase, if_neg fun hr => h (Ranked.eq_of_rank_eq hr)]

theorem find?_of_find?_erase {m : SortedMap κ α} {k k₀ : κ} {v : α}
    (h : (m.erase k).find? k₀ = some v) : m.find? k₀ = some v := by
  rw [find?_erase] at h
  split at h
  · cases h
  · exact h

end SortedMap

end LinkFabric
