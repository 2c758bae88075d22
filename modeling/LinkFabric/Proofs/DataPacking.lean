import LinkFabric.Proofs.RoundTrip

/-!
# Values take as few datagrams as their order allows

Values are packed from the front: a datagram is closed when the next value does not fit it
any more. That a value could also have waited for the next datagram gives no better packing.
To begin a group with something in it costs at most one group more than to begin it empty,
so a sequence that is cut anywhere needs no fewer groups than the whole; and what fits one
group is packed into one.

Main results:

* `Packing.length_packFrom_le`: how full the first group is matters by at most one group.
* `Packing.length_pack_append_le`: a sequence needs no more groups than two parts of it.
* `Packing.length_pack_flatten_le`: no cut of a sequence has fewer groups.
* `Message.values_packed_tightly`: what the datagrams of values carry, and how many there are.
-/

namespace LinkFabric

/-! ## Packing from the front -/

namespace Packing

variable {α β : Type} {size : α → Nat} {budget : Nat} {written : α → List β}

/-- A first group that is fuller costs at most one group, and never saves any. -/
theorem length_packFrom_le (group group' : List α) {used used' : Nat} (h : used ≤ used')
    (items : List α) :
    (packFrom size budget group used items).length ≤
        (packFrom size budget group' used' items).length ∧
      (packFrom size budget group' used' items).length ≤
        (packFrom size budget group used items).length + 1 := by
  induction items generalizing group group' used used' with
  | nil => exact ⟨Nat.le_refl _, Nat.le_succ _⟩
  | cons item rest ih =>
    rw [packFrom, packFrom]
    by_cases hfits' : used' + size item ≤ budget
    · have hfits : used + size item ≤ budget := by omega
      rw [if_pos hfits, if_pos hfits']
      exact ih _ _ (Nat.add_le_add_right h _)
    · rw [if_neg hfits', List.length_cons]
      by_cases hfits : used + size item ≤ budget
      · -- One side opens a group that holds the item alone, the other has more in its group.
        rw [if_pos hfits]
        obtain ⟨hmore, hless⟩ := ih [item] (group ++ [item]) (Nat.le_add_left (size item) used)
        omega
      · rw [if_neg hfits, List.length_cons]
        omega

theorem length_packFrom_le_length_pack (group : List α) (used : Nat) (items : List α) :
    (packFrom size budget group used items).length ≤ (pack size budget items).length + 1 := by
  cases items with
  | nil => exact Nat.le_refl _
  | cons item rest =>
    rw [packFrom, pack]
    by_cases hfits : used + size item ≤ budget
    · rw [if_pos hfits]
      exact (length_packFrom_le _ _ (Nat.le_add_left (size item) used) rest).2
    · exact Nat.le_of_eq (by rw [if_neg hfits, List.length_cons])

theorem length_packFrom_append_le (group : List α) (used : Nat) (xs ys : List α) :
    (packFrom size budget group used (xs ++ ys)).length ≤
      (packFrom size budget group used xs).length + (pack size budget ys).length := by
  induction xs generalizing group used with
  | nil =>
    rw [packFrom, List.length_singleton, List.nil_append, Nat.add_comm]
    exact length_packFrom_le_length_pack group used ys
  | cons item xs ih =>
    rw [List.cons_append, packFrom, packFrom]
    split_ifs
    · exact ih _ _
    · have := ih [item] (size item)
      rw [List.length_cons, List.length_cons]
      omega

/-- A sequence needs no more groups than two parts of it by themselves. -/
theorem length_pack_append_le (xs ys : List α) :
    (pack size budget (xs ++ ys)).length ≤
      (pack size budget xs).length + (pack size budget ys).length := by
  cases xs with
  | nil => exact Nat.le_add_left _ _
  | cons item xs => exact length_packFrom_append_le [item] (size item) xs ys

/-- What fits the rest of the first group goes into it. -/
theorem length_packFrom_of_fits (hsize : ∀ x, size x = (written x).length) (group : List α)
    {used : Nat} {items : List α} (h : used + (items.flatMap written).length ≤ budget) :
    (packFrom size budget group used items).length = 1 := by
  induction items generalizing group used with
  | nil => rfl
  | cons item rest ih =>
    rw [List.flatMap_cons, List.length_append, ← hsize] at h
    rw [packFrom, if_pos (by omega)]
    exact ih _ (by omega)

theorem length_pack_le_one (hsize : ∀ x, size x = (written x).length) {items : List α}
    (h : (items.flatMap written).length ≤ budget) : (pack size budget items).length ≤ 1 := by
  cases items with
  | nil => exact Nat.zero_le _
  | cons item rest =>
    rw [List.flatMap_cons, List.length_append, ← hsize] at h
    exact Nat.le_of_eq (length_packFrom_of_fits hsize [item] h)

/-- No cut of a sequence into groups that fit the budget has fewer groups. -/
theorem length_pack_flatten_le (hsize : ∀ x, size x = (written x).length) {cut : List (List α)}
    (hcut : ∀ group ∈ cut, (group.flatMap written).length ≤ budget) :
    (pack size budget cut.flatten).length ≤ cut.length := by
  induction cut with
  | nil => exact Nat.le_refl _
  | cons group cut ih =>
    have hfirst : (pack size budget group).length ≤ 1 :=
      length_pack_le_one hsize (hcut group List.mem_cons_self)
    have hrest := ih fun g hg => hcut g (List.mem_cons_of_mem _ hg)
    calc (pack size budget (group :: cut).flatten).length
        ≤ (pack size budget group).length + (pack size budget cut.flatten).length :=
          length_pack_append_le group cut.flatten
      _ ≤ 1 + cut.length := Nat.add_le_add hfirst hrest
      _ = (group :: cut).length := Nat.add_comm _ _

end Packing

/-! ## Datagrams of values -/

namespace Message

/-- The datagrams of some values fit the network, each carries at least one value, and every
other station of the universe reads from them, one after another, the values whose record
fits a datagram, all of these and in their order. Any cut of those values into groups that
fit a datagram has at least as many groups as there are datagrams. -/
theorem values_packed_tightly (sender : Station) (records : List Datum) :
    let sendable := records.filter fun d => decide (Record.datumLength d ≤ 1180)
    let datagrams := encodeData sender records
    (∃ groups : List (List Datum), groups.flatten = sendable ∧
      List.Forall₂
        (fun bytes group => group ≠ [] ∧ bytes.length ≤ 1200 ∧
          ∀ receiver : Station, receiver.device ≠ sender.device →
            receiver.realm = sender.realm →
            ∃ header, decode receiver bytes = .ok (header, .data group))
        datagrams groups) ∧
    ∀ cut : List (List Datum), cut.flatten = sendable →
      (∀ group ∈ cut, (group.flatMap Record.encodeDatum).length ≤ 1180) →
      datagrams.length ≤ cut.length := by
  intro sendable datagrams
  let groups := Packing.pack Record.datumLength dataBudget sendable
  have hcarries : List.Forall₂ (fun bytes group => Carries sender bytes (.data group))
      datagrams groups := carries_encodeData sender records
  refine ⟨⟨groups, Packing.flatten_pack _ _ _, ?_⟩, ?_⟩
  · refine List.forall₂_iff_zip.mpr ⟨hcarries.length_eq, ?_⟩
    intro bytes group hmem
    have hnonempty : group ≠ [] := Packing.ne_nil_of_mem_pack (List.of_mem_zip hmem).2
    have hgroup := (List.forall₂_iff_zip.mp hcarries).2 hmem
    refine ⟨hnonempty, hgroup.fits, fun receiver hdevice hrealm => ?_⟩
    obtain ⟨header, hdecode, -⟩ := hgroup.accepted receiver hdevice hrealm
    exact ⟨header, hdecode⟩
  · intro cut hcut hfits
    calc datagrams.length = (Packing.pack Record.datumLength dataBudget cut.flatten).length := by
          rw [hcut]
          exact hcarries.length_eq
      _ ≤ cut.length :=
          Packing.length_pack_flatten_le (fun d => (Record.length_encodeDatum d).symm) hfits

/-- Of three values the second exceeds every datagram, and the other two do not fit one
together. They are read back from two datagrams, and to cut them into two groups is best. -/
theorem two_large_values_in_two_datagrams :
    let large (key : Key) : Datum := ⟨key, ⟨⟨.u64, 100⟩, List.replicate 800 7, List.length_replicate⟩⟩
    let oversized : Datum := ⟨3, ⟨⟨.u64, 200⟩, List.replicate 1600 7, List.length_replicate⟩⟩
    let datagrams := encodeData ⟨2, 7⟩ [large 1, oversized, large 2]
    datagrams.length = 2 ∧
    (∃ groups : List (List Datum), groups.flatten = [large 1, large 2] ∧
      List.Forall₂ (fun bytes group => ∃ header, decode ⟨1, 7⟩ bytes = .ok (header, .data group))
        datagrams groups) ∧
    ∀ cut : List (List Datum), cut.flatten = [large 1, large 2] →
      (∀ group ∈ cut, (group.flatMap Record.encodeDatum).length ≤ 1180) → 2 ≤ cut.length := by
  intro large oversized datagrams
  have hsendable : [large 1, oversized, large 2].filter
      (fun d => decide (Record.datumLength d ≤ 1180)) = [large 1, large 2] := by
    decide +kernel
  have hfits : ∀ group ∈ [[large 1], [large 2]],
      (group.flatMap Record.encodeDatum).length ≤ 1180 := by
    decide +kernel
  obtain ⟨⟨groups, hflatten, hread⟩, hbest⟩ :=
    values_packed_tightly ⟨2, 7⟩ [large 1, oversized, large 2]
  rw [hsendable] at hflatten hbest
  have htwo : datagrams.length = 2 :=
    Nat.le_antisymm (hbest [[large 1], [large 2]] rfl hfits) (by decide +kernel)
  refine ⟨htwo, ⟨groups, hflatten, hread.imp fun bytes group h => ?_⟩, fun cut hcut hfits => ?_⟩
  · exact h.2.2 ⟨1, 7⟩ (by decide) rfl
  · rw [← htwo]
    exact hbest cut hcut hfits

end Message

end LinkFabric
