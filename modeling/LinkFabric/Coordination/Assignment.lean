import LinkFabric.Coordination.Registry
import LinkFabric.Coordination.Roster
import LinkFabric.Datagram.Message

/-!
# Bindings for the followers

From the links of the fleet the leader works out what each follower has to do:

| mode | follower advertised the link | follower is selected by the query |
|------|------------------------------|-----------------------------------|
| send | source at the source key     |                                   |
| recv |                              | sink at the destination key       |
| sync | source at the source key     | sink at the destination key       |

The registry is gone through in the order of the links' names. Each binding is pushed onto
the chunk that is being filled, and a chunk that is full is put away, so a chunk may end
within what one link asks for. A chunk that is begun at the end goes out as it is. What
comes of it are the bindings of all entries, cut into chunks (`Registry.chunksFor_eq`).
-/

namespace LinkFabric

/-- The chunks of bindings for a follower. -/
structure Assignment where
  address : Address
  chunks : List (List Binding)
  deriving DecidableEq

/-- The number of bindings in an assignment. -/
def Assignment.total (a : Assignment) : Nat := a.chunks.flatten.length

namespace RegistryEntry

/-- The source binding that an entry gives to a node that advertised it. -/
def sourceFor (e : RegistryEntry) (f : Follower) : List Binding :=
  if e.hasContributor f.address then [⟨e.link.sourceKey, e.link.rate.ms, .source⟩] else []

/-- The sink binding that an entry gives to a node that its query selects. -/
def sinkFor (e : RegistryEntry) (f : Follower) : List Binding :=
  if e.link.query.selects f.tags then [⟨e.link.destKey, e.link.rate.ms, .sink⟩] else []

/-- The bindings that an entry gives to a follower. -/
def bindingsFor (e : RegistryEntry) (f : Follower) : List Binding :=
  match e.link.mode with
  | .send => e.sourceFor f
  | .recv => e.sinkFor f
  | .sync => e.sourceFor f ++ e.sinkFor f

end RegistryEntry

/-- Chunks in the making: those that are full, and the one that is being filled. -/
structure Chunking where
  full : List (List Binding)
  current : List Binding

namespace Chunking

/-- Nothing pushed yet. -/
def start : Chunking := ⟨[], []⟩

/-- Pushes a binding, and puts the chunk away if it has `size` bindings now. -/
def push (size : Nat) (c : Chunking) (b : Binding) : Chunking :=
  let current := c.current ++ [b]
  if current.length = size then ⟨c.full ++ [current], []⟩ else { c with current }

/-- All chunks: those that are full, and what is left if there is any. -/
def finish (c : Chunking) : List (List Binding) :=
  if c.current.isEmpty then c.full else c.full ++ [c.current]

/-- Whatever is put away, it remains to cut the unfinished chunk and the bindings to come. A
chunk is put away as soon as it is full, so there is room in the unfinished one. -/
theorem finish_foldl_push {size : Nat} (bindings : List Binding) {c : Chunking}
    (hroom : c.current.length < size) :
    (bindings.foldl (push size) c).finish =
      c.full ++ Packing.chunks size (c.current ++ bindings) := by
  induction bindings generalizing c with
  | nil =>
    rw [List.foldl_nil, List.append_nil, finish]
    split
    · rename_i hempty
      rw [List.isEmpty_iff.mp hempty]
      exact (List.append_nil _).symm
    · rename_i hcurrent
      rw [Packing.chunks_of_length_le (fun h => hcurrent (by rw [h]; rfl)) (Nat.le_of_lt hroom)]
  | cons b rest ih =>
    have hsplit : c.current ++ b :: rest = (c.current ++ [b]) ++ rest := by simp
    have hlength : (c.current ++ [b]).length = c.current.length + 1 := by simp
    rw [List.foldl_cons, hsplit, push]
    split
    · rename_i hfull
      have hpos : 0 < size := Nat.zero_lt_of_lt hroom
      have hrest := ih (c := ⟨c.full ++ [c.current ++ [b]], []⟩) hpos
      rw [hrest, Packing.chunks_append_of_length hpos hfull, List.append_assoc]
      rfl
    · rename_i hmore
      have hstill : (c.current ++ [b]).length < size := by omega
      exact ih (c := ⟨c.full, c.current ++ [b]⟩) hstill

end Chunking

namespace Registry

/-- A chunk size that fits a datagram. -/
def chunkSize (n : Nat) : Nat := max 1 (min Message.maxBindings n)

theorem chunkSize_pos (n : Nat) : 0 < chunkSize n := by
  unfold chunkSize
  omega

/-- The bindings for a follower in chunks of about `n`. -/
def chunksFor (r : Registry) (n : Nat) (f : Follower) : List (List Binding) :=
  (r.entries.values.foldl (fun c e => (e.bindingsFor f).foldl (Chunking.push (chunkSize n)) c)
    Chunking.start).finish

/-- All bindings for a follower. -/
def bindingsFor (r : Registry) (f : Follower) : List Binding :=
  r.entries.values.flatMap fun e => e.bindingsFor f

/-- Filling chunks entry by entry is cutting the bindings of all entries. -/
theorem chunksFor_eq (r : Registry) (n : Nat) (f : Follower) :
    r.chunksFor n f = Packing.chunks (chunkSize n) (r.bindingsFor f) := by
  rw [chunksFor, ← List.foldl_flatMap, ← bindingsFor]
  exact Chunking.finish_foldl_push (r.bindingsFor f) (chunkSize_pos n)

/-- The assignments for those of some followers that have bindings. -/
def assignments (r : Registry) (n : Nat) (followers : List Follower) : List Assignment :=
  followers.filterMap fun f =>
    let chunks := r.chunksFor n f
    if chunks.isEmpty then none else some ⟨f.address, chunks⟩

end Registry

end LinkFabric
