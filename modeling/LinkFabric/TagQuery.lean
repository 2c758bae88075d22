import LinkFabric.Link.Error

/-!
# Tag queries

A query is a set of at most eight tags, and it selects the nodes that carry all of
them. It is kept in one form only: strictly descending, without zeros. So two
queries for the same set are equal, and so are the identities of links that differ
in the order of their tags alone.

A query is built from any list of tags (`TagQuery.ofTags`), which fails for too many
tags, or from the eight slots of a record (`TagQuery.ofSlots`), which cannot fail. The
two go different ways. A list loses its zeros, is sorted and then has its repetitions
collapsed. Slots are sorted as they are, and a single pass leaves out the zeros and the
repetitions.
-/

namespace LinkFabric

/-- A set of tags in canonical form. -/
structure TagQuery where
  tags : List Tag
  descending : tags.Pairwise (· > ·)
  zero_not_mem : 0 ∉ tags
  length_le : tags.length ≤ maxQueryTags
  deriving DecidableEq

namespace TagQuery

/-- The query without tags, which selects every node. -/
def empty : TagQuery := ⟨[], .nil, by simp, by simp⟩

instance : Inhabited TagQuery := ⟨empty⟩

/-- Whether the query has no tags. -/
def isEmpty (q : TagQuery) : Bool := q.tags.isEmpty

/-- Whether a node with the given tags is selected. -/
def selects (q : TagQuery) (nodeTags : List Tag) : Bool := q.tags.all fun t => nodeTags.contains t

theorem selects_iff (q : TagQuery) (nodeTags : List Tag) :
    q.selects nodeTags = true ↔ ∀ t ∈ q.tags, t ∈ nodeTags := by
  simp [selects]

/-- The eight slots of a query on the wire: its tags, then zeros. -/
def slots (q : TagQuery) : Vector Tag 8 :=
  ⟨(q.tags ++ List.replicate (8 - q.tags.length) 0).toArray, by
    have := q.length_le
    simp only [maxQueryTags] at this
    simp
    omega⟩

/-! ## From a list of tags: sort, then collapse repetitions -/

/-- Puts a tag at its place in a descending list. -/
def place (t : Tag) : List Tag → List Tag
  | [] => [t]
  | u :: rest => if u ≤ t then t :: u :: rest else u :: place t rest

/-- Tags in descending order, repetitions included. -/
def sortDescending (tags : List Tag) : List Tag := tags.foldr place []

/-- One tag for each run of equal tags. -/
def collapse : List Tag → List Tag
  | [] => []
  | [t] => [t]
  | t :: u :: rest => if t = u then collapse (u :: rest) else t :: collapse (u :: rest)

/-- The tags other than zero, each once and in descending order. -/
def canonical (tags : List Tag) : List Tag :=
  collapse (sortDescending (tags.filter (· ≠ 0)))

theorem mem_place {t u : Tag} {l : List Tag} : u ∈ place t l ↔ u = t ∨ u ∈ l := by
  induction l with
  | nil => simp [place]
  | cons v rest ih =>
    rw [place]
    split
    · simp
    · rw [List.mem_cons, ih, List.mem_cons]
      exact or_left_comm

theorem mem_sortDescending {u : Tag} {tags : List Tag} : u ∈ sortDescending tags ↔ u ∈ tags := by
  induction tags with
  | nil => simp [sortDescending]
  | cons t rest ih =>
    rw [sortDescending, List.foldr_cons, mem_place, ← sortDescending, ih, List.mem_cons]

theorem length_place (t : Tag) (l : List Tag) : (place t l).length = l.length + 1 := by
  induction l with
  | nil => rfl
  | cons u rest ih =>
    rw [place]
    split
    · rfl
    · rw [List.length_cons, ih, List.length_cons]

theorem length_sortDescending (tags : List Tag) : (sortDescending tags).length = tags.length := by
  induction tags with
  | nil => rfl
  | cons t rest ih =>
    rw [sortDescending, List.foldr_cons, length_place, ← sortDescending, ih, List.length_cons]

theorem pairwise_place (t : Tag) {l : List Tag} (h : l.Pairwise (· ≥ ·)) :
    (place t l).Pairwise (· ≥ ·) := by
  induction l with
  | nil => simp [place]
  | cons u rest ih =>
    obtain ⟨hhead, htail⟩ := List.pairwise_cons.mp h
    rw [place]
    split
    · rename_i hle
      refine List.pairwise_cons.mpr ⟨?_, h⟩
      intro v hv
      rcases List.mem_cons.mp hv with rfl | hv
      · exact hle
      · exact UInt32.le_trans (hhead v hv) hle
    · rename_i hnle
      refine List.pairwise_cons.mpr ⟨?_, ih htail⟩
      intro v hv
      rcases mem_place.mp hv with rfl | hv
      · exact UInt32.le_of_lt (UInt32.not_le.mp hnle)
      · exact hhead v hv

theorem pairwise_sortDescending (tags : List Tag) :
    (sortDescending tags).Pairwise (· ≥ ·) := by
  induction tags with
  | nil => exact .nil
  | cons t rest ih => exact pairwise_place t ih

theorem mem_collapse {u : Tag} {l : List Tag} : u ∈ collapse l ↔ u ∈ l := by
  fun_induction collapse l with
  | case1 => rfl
  | case2 => rfl
  | case3 v rest ih => simp [ih]
  | case4 t v rest hne ih => simp [ih]

theorem pairwise_collapse {l : List Tag} (h : l.Pairwise (· ≥ ·)) :
    (collapse l).Pairwise (· > ·) := by
  fun_induction collapse l with
  | case1 => exact .nil
  | case2 => simp
  | case3 v rest ih => exact ih (List.pairwise_cons.mp h).2
  | case4 t v rest hne ih =>
    obtain ⟨hhead, htail⟩ := List.pairwise_cons.mp h
    refine List.pairwise_cons.mpr ⟨?_, ih htail⟩
    intro w hw
    have hvt : v < t :=
      UInt32.lt_of_le_of_ne (hhead v List.mem_cons_self) fun heq => hne heq.symm
    rcases List.mem_cons.mp (mem_collapse.mp hw) with rfl | hw
    · exact hvt
    · exact UInt32.lt_of_le_of_lt ((List.pairwise_cons.mp htail).1 w hw) hvt

theorem mem_canonical {u : Tag} {tags : List Tag} : u ∈ canonical tags ↔ u ∈ tags ∧ u ≠ 0 := by
  simp [canonical, mem_collapse, mem_sortDescending]

/-- The query for a list of tags. Zeros and repetitions do not count. -/
def ofTags (tags : List Tag) : Except LinkError TagQuery :=
  if h : (canonical tags).length ≤ maxQueryTags then
    .ok ⟨canonical tags, pairwise_collapse (pairwise_sortDescending _),
      fun hmem => (mem_canonical.mp hmem).2 rfl, h⟩
  else .error (.tooManyTags (canonical tags).length)

/-! ## From the slots of a record: sort all of them, then compact

The slots are sorted with their zeros, which come last. One pass over them then pushes a slot
unless it is zero or the tag that was pushed last. -/

/-- One step of the pass: what is pushed so far, and the next slot. -/
def collect (out : List Tag) (t : Tag) : List Tag :=
  if t ≠ 0 ∧ out.getLast? ≠ some t then out ++ [t] else out

/-- The whole pass. -/
def compact (slots : List Tag) : List Tag := slots.foldl collect []

theorem mem_collect {out : List Tag} {t u : Tag} :
    u ∈ collect out t ↔ u ∈ out ∨ u = t ∧ u ≠ 0 := by
  rw [collect]
  split
  · rename_i hpush
    rw [List.mem_append, List.mem_singleton]
    exact or_congr_right ⟨fun h => ⟨h, h ▸ hpush.1⟩, And.left⟩
  · rename_i hskip
    refine ⟨Or.inl, fun h => h.elim id ?_⟩
    rintro ⟨rfl, hne⟩
    have hlast : out.getLast? = some u := Decidable.byContradiction fun h => hskip ⟨hne, h⟩
    exact List.mem_of_getLast? hlast

theorem mem_foldl_collect {rest out : List Tag} {u : Tag} :
    u ∈ rest.foldl collect out ↔ u ∈ out ∨ u ∈ rest ∧ u ≠ 0 := by
  induction rest generalizing out with
  | nil => simp
  | cons t rest ih =>
    rw [List.foldl_cons, ih, mem_collect, List.mem_cons, or_assoc, or_and_right]

/-- The pass keeps the tags other than zero, in whatever order they come. -/
theorem mem_compact {slots : List Tag} {u : Tag} : u ∈ compact slots ↔ u ∈ slots ∧ u ≠ 0 := by
  rw [compact, mem_foldl_collect]
  simp

theorem length_collect_le (out : List Tag) (t : Tag) :
    (collect out t).length ≤ out.length + 1 := by
  rw [collect]
  split <;> simp

theorem length_foldl_collect_le (rest out : List Tag) :
    (rest.foldl collect out).length ≤ out.length + rest.length := by
  induction rest generalizing out with
  | nil => simp
  | cons t rest ih =>
    have hstep := length_collect_le out t
    have hrest := ih (collect out t)
    rw [List.foldl_cons, List.length_cons]
    omega

/-- Tags that are at least `t` are above it if they descend and do not end in `t`. -/
theorem lt_of_getLast?_ne {out : List Tag} {t : Tag} (hdesc : out.Pairwise (· > ·))
    (hle : ∀ u ∈ out, t ≤ u) (hlast : out.getLast? ≠ some t) : ∀ u ∈ out, t < u := by
  rcases List.eq_nil_or_concat out with rfl | ⟨front, last, rfl⟩
  · simp
  · rw [List.concat_eq_append] at *
    have hlt : t < last := by
      refine UInt32.lt_of_le_of_ne (hle last (by simp)) ?_
      rintro rfl
      simp at hlast
    intro u hu
    rcases List.mem_append.mp hu with hu | hu
    · have habove : last < u := (List.pairwise_append.mp hdesc).2.2 u hu last (by simp)
      exact UInt32.lt_trans hlt habove
    · rwa [List.mem_singleton.mp hu]

/-- The invariant of the pass: what is pushed descends and is nowhere below what is left. -/
structure Compacted (out rest : List Tag) : Prop where
  descending : out.Pairwise (· > ·)
  le_of_mem : ∀ u ∈ out, ∀ t ∈ rest, t ≤ u

theorem Compacted.collect {out rest : List Tag} {t : Tag} (h : Compacted out (t :: rest))
    (hsorted : (t :: rest).Pairwise (· ≥ ·)) : Compacted (collect out t) rest := by
  have hrest : ∀ u ∈ out, ∀ v ∈ rest, v ≤ u := fun u hu v hv =>
    h.le_of_mem u hu v (List.mem_cons_of_mem _ hv)
  rw [TagQuery.collect]
  split
  · rename_i hpush
    -- A slot that is pushed is not the last tag, which is the only one it could be equal to.
    have hlt : ∀ u ∈ out, t < u := lt_of_getLast?_ne h.descending
      (fun u hu => h.le_of_mem u hu t List.mem_cons_self) hpush.2
    constructor
    · refine List.pairwise_append.mpr ⟨h.descending, by simp, fun u hu v hv => ?_⟩
      rw [List.mem_singleton.mp hv]
      exact hlt u hu
    · intro u hu v hv
      rcases List.mem_append.mp hu with hu | hu
      · exact hrest u hu v hv
      · rw [List.mem_singleton.mp hu]
        exact (List.pairwise_cons.mp hsorted).1 v hv
  · exact ⟨h.descending, hrest⟩

theorem Compacted.foldl_collect {rest out : List Tag} (h : Compacted out rest)
    (hsorted : rest.Pairwise (· ≥ ·)) : (rest.foldl TagQuery.collect out).Pairwise (· > ·) := by
  induction rest generalizing out with
  | nil => exact h.descending
  | cons t rest ih => exact ih (h.collect hsorted) (List.pairwise_cons.mp hsorted).2

theorem pairwise_compact {slots : List Tag} (h : slots.Pairwise (· ≥ ·)) :
    (compact slots).Pairwise (· > ·) :=
  Compacted.foldl_collect ⟨.nil, by simp⟩ h

/-- The query of a record's slots. Zeros and repetitions do not count. -/
def ofSlots (slots : Vector Tag 8) : TagQuery :=
  ⟨compact (sortDescending slots.toList), pairwise_compact (pairwise_sortDescending _),
    fun hmem => (mem_compact.mp hmem).2 rfl, by
    have hcompact := length_foldl_collect_le (sortDescending slots.toList) []
    rw [length_sortDescending, Vector.length_toList, List.length_nil, Nat.zero_add] at hcompact
    exact hcompact⟩

end TagQuery

end LinkFabric
