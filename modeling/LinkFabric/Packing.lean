/-!
# Packing a sequence into groups

Records go out in datagrams of bounded size. A sequence is cut from the front: each
group takes the next items as long as they fit the budget, and the first item that
does not fit opens the next group. With every item of size one and a budget of `n`
this cuts a sequence into chunks of `n`.

Main statements:

* `Packing.flatten_pack`: the groups hold the items of the sequence, in order.
* `Packing.foldl_pack`: so it is all the same whether items are taken in by groups.
* `Packing.ne_nil_of_mem_pack`: no group is empty.
* `Packing.length_flatMap_le_of_mem_pack`: every group fits the budget, if every item does.
* `Packing.chunks_append_of_length`: a full chunk can be cut off the front.
-/

namespace LinkFabric.Packing

variable {α : Type}

/-- Groups of a sequence, of which the first is begun: it holds `group`, of total size
`used`. -/
def packFrom (size : α → Nat) (budget : Nat) : List α → Nat → List α → List (List α)
  | group, _, [] => [group]
  | group, used, item :: rest =>
    if used + size item ≤ budget then
      packFrom size budget (group ++ [item]) (used + size item) rest
    else group :: packFrom size budget [item] (size item) rest

/-- The groups of a sequence. An item that exceeds the budget has a group of its own. -/
def pack (size : α → Nat) (budget : Nat) : List α → List (List α)
  | [] => []
  | item :: rest => packFrom size budget [item] (size item) rest

/-- The chunks of `n` items of a sequence; the last may be shorter. -/
def chunks (n : Nat) (items : List α) : List (List α) := pack (fun _ => 1) n items

theorem flatten_packFrom (size : α → Nat) (budget : Nat) (group : List α) (used : Nat)
    (items : List α) : (packFrom size budget group used items).flatten = group ++ items := by
  induction items generalizing group used with
  | nil => simp [packFrom]
  | cons item rest ih =>
    rw [packFrom]
    split
    · rw [ih]
      simp
    · rw [List.flatten_cons, ih]
      rfl

theorem flatten_pack (size : α → Nat) (budget : Nat) (items : List α) :
    (pack size budget items).flatten = items := by
  cases items with
  | nil => rfl
  | cons item rest => exact flatten_packFrom size budget [item] (size item) rest

/-- To take in the groups one after another is to take in the items. What takes in groups,
`takeGroup`, may hold more than what takes in items; it is put together from that by `f`. -/
theorem foldl_pack {σ τ : Type} (size : α → Nat) (budget : Nat) (f : σ → τ) (take : σ → α → σ)
    {takeGroup : τ → List α → τ} (h : ∀ s group, takeGroup (f s) group = f (group.foldl take s))
    (s : σ) (items : List α) :
    (pack size budget items).foldl takeGroup (f s) = f (items.foldl take s) := by
  rw [List.foldl_hom f h, ← List.foldl_flatten, flatten_pack]

theorem ne_nil_of_mem_packFrom {size : α → Nat} {budget : Nat} {group : List α} {used : Nat}
    {items g : List α} (hgroup : group ≠ []) (hg : g ∈ packFrom size budget group used items) :
    g ≠ [] := by
  induction items generalizing group used with
  | nil =>
    rw [packFrom, List.mem_singleton] at hg
    exact hg ▸ hgroup
  | cons item rest ih =>
    rw [packFrom] at hg
    split at hg
    · exact ih (by simp) hg
    · rcases List.mem_cons.mp hg with rfl | hg
      · exact hgroup
      · exact ih (by simp) hg

theorem ne_nil_of_mem_pack {size : α → Nat} {budget : Nat} {items g : List α}
    (hg : g ∈ pack size budget items) : g ≠ [] := by
  cases items with
  | nil => simp [pack] at hg
  | cons item rest => exact ne_nil_of_mem_packFrom (by simp) hg

section Fit

variable {β : Type} {size : α → Nat} {budget : Nat} {written : α → List β}

/-- The sizes are lengths of what is written for the items; so is the size of a group. -/
theorem length_flatMap_le_of_mem_packFrom (hsize : ∀ x, size x = (written x).length)
    {group : List α} {used : Nat} {items g : List α} (hitems : ∀ x ∈ items, size x ≤ budget)
    (hused : (group.flatMap written).length = used) (hfits : used ≤ budget)
    (hg : g ∈ packFrom size budget group used items) : (g.flatMap written).length ≤ budget := by
  induction items generalizing group used with
  | nil =>
    rw [packFrom, List.mem_singleton] at hg
    rw [hg, hused]
    exact hfits
  | cons item rest ih =>
    have hrest : ∀ x ∈ rest, size x ≤ budget := fun x hx => hitems x (List.mem_cons_of_mem _ hx)
    rw [packFrom] at hg
    split at hg
    · rename_i hmore
      refine ih hrest ?_ hmore hg
      rw [List.flatMap_append, List.length_append, hused, List.flatMap_singleton, hsize]
    · rcases List.mem_cons.mp hg with rfl | hg
      · rw [hused]
        exact hfits
      · refine ih hrest ?_ (hitems item List.mem_cons_self) hg
        rw [List.flatMap_singleton, hsize]

theorem length_flatMap_le_of_mem_pack (hsize : ∀ x, size x = (written x).length)
    {items g : List α} (hitems : ∀ x ∈ items, size x ≤ budget)
    (hg : g ∈ pack size budget items) : (g.flatMap written).length ≤ budget := by
  cases items with
  | nil => cases hg
  | cons item rest =>
    refine length_flatMap_le_of_mem_packFrom hsize
      (fun x hx => hitems x (List.mem_cons_of_mem _ hx)) ?_ (hitems item List.mem_cons_self) hg
    rw [List.flatMap_singleton, hsize]

theorem length_le_of_mem_chunks {n : Nat} (hn : 0 < n) {items g : List α}
    (hg : g ∈ chunks n items) : g.length ≤ n := by
  have hwritten : (g.flatMap fun x => [x]).length ≤ n :=
    length_flatMap_le_of_mem_pack (fun _ => rfl) (fun _ _ => hn) hg
  rwa [List.flatMap_singleton'] at hwritten

end Fit

/-! ## Chunks -/

/-- What still fits the chunk that is begun goes into it. -/
theorem packFrom_append {n : Nat} (group more items : List α) {used : Nat}
    (hfits : used + more.length ≤ n) :
    packFrom (fun _ => 1) n group used (more ++ items) =
      packFrom (fun _ => 1) n (group ++ more) (used + more.length) items := by
  induction more generalizing group used with
  | nil => simp
  | cons x more ih =>
    rw [List.length_cons] at hfits
    rw [List.cons_append, packFrom, if_pos (by omega), ih _ (by omega), List.append_assoc,
      List.length_cons, Nat.add_assoc, Nat.add_comm 1]
    rfl

theorem chunks_append {n : Nat} {l : List α} (hne : l ≠ []) (hle : l.length ≤ n)
    (items : List α) :
    chunks n (l ++ items) = packFrom (fun _ => 1) n l l.length items := by
  obtain ⟨x, more, rfl⟩ := List.exists_cons_of_ne_nil hne
  rw [List.length_cons, Nat.add_comm] at hle
  rw [List.cons_append, chunks, pack, packFrom_append [x] more items hle, List.length_cons,
    Nat.add_comm 1]
  rfl

theorem chunks_of_length_le {n : Nat} {l : List α} (hne : l ≠ []) (hle : l.length ≤ n) :
    chunks n l = [l] := by
  have hchunks := chunks_append hne hle []
  rwa [List.append_nil] at hchunks

/-- A chunk is full when it has `n` items, and what follows begins another one. -/
theorem chunks_append_of_length {n : Nat} (hn : 0 < n) {l : List α} (hfull : l.length = n)
    (items : List α) : chunks n (l ++ items) = l :: chunks n items := by
  have hne : l ≠ [] := List.ne_nil_of_length_pos (hfull ▸ hn)
  rw [chunks_append hne (Nat.le_of_eq hfull), hfull]
  cases items with
  | nil => rfl
  | cons x rest =>
    rw [packFrom, if_neg (by omega)]
    rfl

end LinkFabric.Packing
