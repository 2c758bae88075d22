import LinkFabric.Proofs.Installation

/-!
# Every follower gets its bindings in full chunks

From the links of the fleet the leader works out what a follower has to do, link after link,
and cuts it into chunks as it goes, so a chunk may end within what one link asks for. What
comes out is told here by a table of what each mode asks of whom, and by the lengths of the
chunks.

Main results:

* `Packing.length_of_mem_dropLast_chunks`: all chunks but the last are full.
* `RegistryEntry.bindingsFor_eq_duties`: what an entry gives to a follower is what the table says.
* `Registry.assignments_eq`: assignments are for the followers that have something to do.
* `Registry.duties_in_full_chunks`: all of this in one statement.
-/

namespace LinkFabric

/-! ## Chunks -/

namespace Packing

variable {α : Type}

theorem packFrom_ne_nil {size : α → Nat} {budget : Nat} {group : List α} {used : Nat}
    {items : List α} : packFrom size budget group used items ≠ [] := by
  induction items generalizing group used with
  | nil => exact List.cons_ne_nil _ _
  | cons item rest ih =>
    rw [packFrom]
    split_ifs
    · exact ih
    · exact List.cons_ne_nil _ _

theorem pack_eq_nil_iff {size : α → Nat} {budget : Nat} {items : List α} :
    pack size budget items = [] ↔ items = [] := by
  cases items with
  | nil => exact iff_of_true rfl rfl
  | cons item rest => exact iff_of_false packFrom_ne_nil (List.cons_ne_nil _ _)

/-- A chunk is closed only when it is full. -/
theorem length_of_mem_dropLast_packFrom {n : Nat} (hn : 0 < n) {group : List α} {used : Nat}
    (hused : group.length = used) (hfits : used ≤ n) {items chunk : List α}
    (hchunk : chunk ∈ (packFrom (fun _ => 1) n group used items).dropLast) :
    chunk.length = n := by
  induction items generalizing group used with
  | nil => cases hchunk
  | cons item rest ih =>
    rw [packFrom] at hchunk
    split_ifs at hchunk with hmore
    · exact ih (by rw [List.length_append, hused, List.length_singleton]) hmore hchunk
    · rw [List.dropLast_cons_of_ne_nil packFrom_ne_nil] at hchunk
      rcases List.mem_cons.mp hchunk with rfl | hchunk
      · omega
      · exact ih List.length_singleton hn hchunk

theorem length_of_mem_dropLast_chunks {n : Nat} (hn : 0 < n) {items chunk : List α}
    (hchunk : chunk ∈ (chunks n items).dropLast) : chunk.length = n := by
  cases items with
  | nil => cases hchunk
  | cons item rest =>
    exact length_of_mem_dropLast_packFrom hn List.length_singleton hn hchunk

end Packing

/-! ## What a link asks for -/

/-- A follower has all tags of a query. -/
def Follower.HasTags (f : Follower) (q : TagQuery) : Prop := ∀ tag ∈ q.tags, tag ∈ f.tags

-- By the tags of the query: a search through all numbers that a tag can be would not end.
instance (f : Follower) (q : TagQuery) : Decidable (f.HasTags q) := List.decidableBAll _ _

/-- What an entry asks of a follower. A node that advertised the link sends its source key,
unless the link only receives; a node that has all tags of the query takes values at the
destination key, unless the link only sends. -/
def RegistryEntry.duties (e : RegistryEntry) (f : Follower) : List Binding :=
  (if (e.link.mode = .send ∨ e.link.mode = .sync) ∧ ∃ c ∈ e.contributors, c.address = f.address
    then [⟨e.link.sourceKey, e.link.rate.ms, .source⟩] else []) ++
  (if (e.link.mode = .recv ∨ e.link.mode = .sync) ∧ f.HasTags e.link.query
    then [⟨e.link.destKey, e.link.rate.ms, .sink⟩] else [])

theorem RegistryEntry.bindingsFor_eq_duties (e : RegistryEntry) (f : Follower) :
    e.bindingsFor f = e.duties f := by
  have hlisted : e.hasContributor f.address = true ↔ ∃ c ∈ e.contributors, c.address = f.address :=
    hasContributor_iff
  have hselected : e.link.query.selects f.tags = true ↔ f.HasTags e.link.query :=
    e.link.query.selects_iff f.tags
  unfold bindingsFor duties sourceFor sinkFor
  cases e.link.mode <;> simp [hlisted, hselected]

namespace Registry

/-- What the links of the fleet ask of a follower, in ascending order of their names. -/
def duties (r : Registry) (f : Follower) : List Binding :=
  r.entries.entries.flatMap fun p => p.2.duties f

theorem bindingsFor_eq_duties (r : Registry) (f : Follower) : r.bindingsFor f = r.duties f := by
  unfold bindingsFor duties SortedMap.values
  rw [List.flatMap_map]
  simp only [RegistryEntry.bindingsFor_eq_duties]

theorem chunksFor_eq_nil_iff {r : Registry} {n : Nat} {f : Follower} :
    r.chunksFor n f = [] ↔ r.duties f = [] := by
  rw [chunksFor_eq, Packing.chunks, Packing.pack_eq_nil_iff, bindingsFor_eq_duties]

/-- Assignments are for the followers that have something to do, in their order. -/
theorem assignments_eq (r : Registry) (n : Nat) (followers : List Follower) :
    r.assignments n followers =
      (followers.filter fun f => decide (r.duties f ≠ [])).map
        fun f => ⟨f.address, r.chunksFor n f⟩ := by
  induction followers with
  | nil => rfl
  | cons f followers ih =>
    have hempty : (r.chunksFor n f).isEmpty = true ↔ r.duties f = [] := by
      rw [List.isEmpty_iff, chunksFor_eq_nil_iff]
    rw [assignments, List.filterMap_cons, ← assignments, ih]
    by_cases hnone : r.duties f = []
    · simp [hempty.mpr hnone, hnone]
    · simp [mt hempty.mp hnone, hnone]

/-- Whatever the links of the fleet are and whatever chunk size is wished, a follower gets what
each link asks of it, in ascending order of the links' names. The size counts as at least 1
and at most 147, which fit a datagram. All chunks have this size, but the last, which is not
empty and not larger. Assignments are made for exactly the followers that have something to
do, in the order in which they are given. -/
theorem duties_in_full_chunks (r : Registry) (n : Nat) :
    let c := max 1 (min 147 n)
    r.entries.keys.Pairwise (· < ·) ∧
    (∀ f : Follower,
      (r.chunksFor n f).flatten = r.duties f ∧
      (∀ chunk ∈ (r.chunksFor n f).dropLast, chunk.length = c) ∧
      (∀ chunk, (r.chunksFor n f).getLast? = some chunk →
        1 ≤ chunk.length ∧ chunk.length ≤ c)) ∧
    ∀ followers : List Follower,
      r.assignments n followers =
        (followers.filter fun f => decide (r.duties f ≠ [])).map
          fun f => ⟨f.address, r.chunksFor n f⟩ := by
  intro c
  have hpos : 0 < c := chunkSize_pos n
  refine ⟨List.pairwise_map.mpr r.entries.ascending, fun f => ⟨?_, ?_, ?_⟩, r.assignments_eq n⟩
  · rw [flatten_chunksFor, bindingsFor_eq_duties]
  · rw [chunksFor_eq]
    exact fun chunk => Packing.length_of_mem_dropLast_chunks hpos
  · rw [chunksFor_eq]
    intro chunk hlast
    have hmem := List.mem_of_getLast? hlast
    exact ⟨List.length_pos_iff.mpr (Packing.ne_nil_of_mem_pack hmem),
      Packing.length_le_of_mem_chunks hpos hmem⟩

/-- Two links for nodes with tag 4; the second keeps a key in step, and a node with the tag
offers it. In chunks of two, the first ends within what that link asks of the node. A node
without the tag has nothing to do. -/
theorem chunk_ends_within_link :
    let query : TagQuery := .ofSlots #v[4, 0, 0, 0, 0, 0, 0, 0]
    let write : Link := { Link.new .recv 7 8 with query }
    let step : Link := { Link.new .sync 16 16 with query, rate := .clamp 50 }
    let r := ((Registry.empty {}).tryUpdate step (.v4 1)).tryUpdate write (.v4 9)
    let tagged : Follower := .new (.v4 1) [4, 5] 0
    let other : Follower := .new (.v4 2) [5] 0
    (r.chunksFor 2 tagged).flatten = [⟨8, 1000, .sink⟩, ⟨16, 50, .source⟩, ⟨16, 50, .sink⟩] ∧
    (∀ chunk ∈ (r.chunksFor 2 tagged).dropLast, chunk.length = 2) ∧
    (r.assignments 2 [other, tagged]).map (·.address) = [.v4 1] := by
  intro query write step r tagged other
  have htagged : r.duties tagged = [⟨8, 1000, .sink⟩, ⟨16, 50, .source⟩, ⟨16, 50, .sink⟩] := by
    decide +kernel
  have hother : r.duties other = [] := by decide +kernel
  obtain ⟨-, hchunks, hassigned⟩ := duties_in_full_chunks r 2
  refine ⟨(hchunks tagged).1.trans htagged, (hchunks tagged).2.1, ?_⟩
  rw [hassigned, List.filter_cons_of_neg (by simp [hother]),
    List.filter_cons_of_pos (by simp [htagged])]
  rfl

end Registry

end LinkFabric
