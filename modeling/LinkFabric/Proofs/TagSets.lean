import LinkFabric.Proofs.LinkIdentity
import Mathlib.Data.Finset.Card
import Mathlib.Data.List.Sort

/-!
# A query is a set of tags

Tags come as a list that someone wrote, or as the eight slots of a record, and the two are
brought into one form by different ways: the list loses its zeros, is sorted and is then rid
of repetitions, while the slots are sorted with their zeros and a single pass pushes those
that are neither zero nor the last one pushed. All nodes have to arrive at the same query, or
they would name the same link differently. They do: what the pass has pushed descends as long
as it is nowhere below what is left, a strictly descending list is determined by its members,
and both ways keep the members other than zero and no others.

Main results:

* `TagQuery.compact_sortDescending`: the two ways lead to the same list.
* `TagQuery.length_canonical`: its length is the number of different tags.
* `TagQuery.ofTags_eq_ok_iff`, `TagQuery.ofTags_eq_error_iff`: what comes of a list.
* `TagQuery.queries_are_tag_sets`: queries, and the names made of them, as sets of tags.
-/

namespace LinkFabric

namespace TagQuery

/-! ## One form for every set -/

theorem pairwise_canonical (tags : List Tag) : (canonical tags).Pairwise (· > ·) :=
  pairwise_collapse (pairwise_sortDescending _)

/-- Sorting all slots and compacting them in one pass leads where removing the zeros, sorting
and collapsing leads. -/
theorem compact_sortDescending (slots : List Tag) :
    compact (sortDescending slots) = canonical slots := by
  have hdesc : (compact (sortDescending slots)).Pairwise (· > ·) :=
    pairwise_compact (pairwise_sortDescending slots)
  refine hdesc.eq_of_mem_iff (pairwise_canonical slots) fun t => ?_
  rw [mem_compact, mem_sortDescending, mem_canonical]

/-- The number of different tags other than zero. -/
theorem length_canonical (tags : List Tag) :
    (canonical tags).length = (tags.toFinset.erase 0).card := by
  have hset : (canonical tags).toFinset = tags.toFinset.erase 0 := by
    ext t
    rw [List.mem_toFinset, mem_canonical, Finset.mem_erase, List.mem_toFinset, and_comm]
  rw [← hset, List.toFinset_card_of_nodup (pairwise_canonical tags).nodup]

/-! ## Queries of lists and of slots -/

theorem ofTags_eq_ok_iff {tags : List Tag} {q : TagQuery} :
    ofTags tags = .ok q ↔ q.tags = canonical tags := by
  rw [ofTags]
  split
  · rw [Except.ok.injEq, eq_iff_tags, eq_comm]
  · rename_i hlong
    refine iff_of_false (fun h => by cases h) fun h => ?_
    exact hlong (h ▸ q.length_le)

theorem ofTags_eq_error_iff {tags : List Tag} {cause : LinkError} :
    ofTags tags = .error cause ↔
      maxQueryTags < (canonical tags).length ∧ cause = .tooManyTags (canonical tags).length := by
  rw [ofTags]
  split
  · rename_i hshort
    exact iff_of_false (fun h => by cases h) fun h => Nat.not_lt.mpr hshort h.1
  · rename_i hlong
    rw [Except.error.injEq, eq_comm]
    exact (and_iff_right (Nat.not_le.mp hlong)).symm

theorem exists_ofTags {tags : List Tag} (h : (canonical tags).length ≤ maxQueryTags) :
    ∃ q, ofTags tags = .ok q := by
  cases hof : ofTags tags with
  | ok q => exact ⟨q, rfl⟩
  | error cause => exact absurd h (Nat.not_le.mpr (ofTags_eq_error_iff.mp hof).1)

theorem mem_of_ofTags {tags : List Tag} {q : TagQuery} (h : ofTags tags = .ok q) {t : Tag} :
    t ∈ q.tags ↔ t ∈ tags ∧ t ≠ 0 := by
  rw [ofTags_eq_ok_iff.mp h, mem_canonical]

/-- The slots of a record give the query of their tags, which are never too many. -/
theorem ofTags_toList (slots : Vector Tag 8) : ofTags slots.toList = .ok (ofSlots slots) :=
  ofTags_eq_ok_iff.mpr (compact_sortDescending slots.toList)

/-- Lists with the same tags have the same outcome, be it a query or a refusal. -/
theorem ofTags_congr {tags tags' : List Tag} (h : ∀ t, t ≠ 0 → (t ∈ tags ↔ t ∈ tags')) :
    ofTags tags = ofTags tags' := by
  have hcanonical : canonical tags = canonical tags' := by
    refine (pairwise_canonical tags).eq_of_mem_iff (pairwise_canonical tags') fun t => ?_
    rw [mem_canonical, mem_canonical]
    exact and_congr_left (h t)
  simp only [ofTags, hcanonical]

/-- Queries are equal iff they were built from the same tags. -/
theorem eq_iff_of_ofTags {tags tags' : List Tag} {q q' : TagQuery} (h : ofTags tags = .ok q)
    (h' : ofTags tags' = .ok q') : q = q' ↔ ∀ t, t ≠ 0 → (t ∈ tags ↔ t ∈ tags') := by
  simp only [eq_iff_mem, mem_of_ofTags h, mem_of_ofTags h', and_congr_left_iff]

/-- A query selects the nodes that have every tag it was built from. -/
theorem selects_iff_of_ofTags {tags : List Tag} {q : TagQuery} (h : ofTags tags = .ok q)
    (nodeTags : List Tag) :
    q.selects nodeTags = true ↔ ∀ t ∈ tags, t ≠ 0 → t ∈ nodeTags := by
  rw [selects_iff]
  simp only [mem_of_ofTags h, and_imp]

end TagQuery

/-- The serialisation of a link tells its query. -/
theorem Link.canonicalBytes_query_inj (link : Link) {q q' : TagQuery} :
    { link with query := q }.canonicalBytes = { link with query := q' }.canonicalBytes ↔
      q = q' := by
  refine ⟨fun h => ?_, fun h => by rw [h]⟩
  exact congrArg Link.query (canonicalBytes_injective h)

namespace TagQuery

/-- A list of tags is refused iff it has more than 8 different ones other than zero, with their
number as the cause; otherwise its query holds them strictly descending, then zeros, and
selects a node iff all of them are among the tags of the node. Lists with the same tags have
the same outcome. Two queries, and the serialisations of a link with one or the other, are
equal iff the tags are the same, and then so are the names of the link. The slots of a record
always give the query of their tags, and those of a query give the query again. -/
theorem queries_are_tag_sets :
    (∀ tags : List Tag,
      let count := (tags.toFinset.erase 0).card
      (8 < count → ofTags tags = .error (.tooManyTags count)) ∧
      (count ≤ 8 → ∃ q, ofTags tags = .ok q ∧
        (∃ held, q.slots.toList = held ++ List.replicate (8 - count) 0 ∧
          held.Pairwise (· > ·) ∧ ∀ t, t ∈ held ↔ t ∈ tags ∧ t ≠ 0) ∧
        ∀ nodeTags, q.selects nodeTags = true ↔ ∀ t ∈ tags, t ≠ 0 → t ∈ nodeTags)) ∧
    (∀ tags tags' : List Tag, (∀ t, t ≠ 0 → (t ∈ tags ↔ t ∈ tags')) →
      ofTags tags = ofTags tags') ∧
    (∀ (tags tags' : List Tag) (q q' : TagQuery), ofTags tags = .ok q → ofTags tags' = .ok q' →
      (q = q' ↔ ∀ t, t ≠ 0 → (t ∈ tags ↔ t ∈ tags')) ∧
      ∀ link : Link,
        let l := { link with query := q }
        let l' := { link with query := q' }
        (l.canonicalBytes = l'.canonicalBytes ↔ ∀ t, t ≠ 0 → (t ∈ tags ↔ t ∈ tags')) ∧
        ((∀ t, t ≠ 0 → (t ∈ tags ↔ t ∈ tags')) → l.id = l'.id)) ∧
    (∀ slots : Vector Tag 8, ofTags slots.toList = .ok (ofSlots slots) ∧
      ∀ nodeTags, (ofSlots slots).selects nodeTags = true ↔
        ∀ t ∈ slots.toList, t ≠ 0 → t ∈ nodeTags) ∧
    (∀ q : TagQuery, ofSlots q.slots = q) := by
  refine ⟨?_, fun tags tags' => ofTags_congr, ?_, fun slots => ?_, ofSlots_slots⟩
  · intro tags count
    have hcount : (canonical tags).length = count := length_canonical tags
    rw [← hcount]
    refine ⟨fun hmany => ofTags_eq_error_iff.mpr ⟨hmany, rfl⟩, fun hfew => ?_⟩
    obtain ⟨q, hq⟩ := exists_ofTags hfew
    refine ⟨q, hq, ⟨q.tags, ?_, q.descending, fun t => mem_of_ofTags hq⟩,
      selects_iff_of_ofTags hq⟩
    rw [toList_slots, ofTags_eq_ok_iff.mp hq]
  · intro tags tags' q q' hq hq'
    have hsame := eq_iff_of_ofTags hq hq'
    refine ⟨hsame, fun link => ⟨link.canonicalBytes_query_inj.trans hsame, fun hmem => ?_⟩⟩
    rw [hsame.mpr hmem]
  · exact ⟨ofTags_toList slots, selects_iff_of_ofTags (ofTags_toList slots)⟩

/-- Two ways to write the tags 9, 7 and 5 give one query, so a link has one name with either,
and the slots of a record give it too. It does not select a node without the 7. Nine tags and
a zero are too many. -/
theorem three_tags_in_any_order :
    let q := ofSlots #v[0, 7, 0, 5, 9, 5, 0, 0]
    ofTags [5, 0, 9, 7, 5] = .ok q ∧ ofTags [7, 7, 5, 9] = .ok q ∧
    q.slots.toList = [9, 7, 5, 0, 0, 0, 0, 0] ∧ q.selects [5, 9] = false ∧
    ofTags [1, 2, 3, 4, 5, 0, 6, 7, 8, 9] = .error (.tooManyTags 9) := by
  intro q
  obtain ⟨hlists, hcongr, -, hrecords, -⟩ := queries_are_tag_sets
  have hq : ofTags [5, 0, 9, 7, 5] = .ok q := by
    rw [← (hrecords _).1]
    exact hcongr _ _ fun t ht => by grind
  have hother : ofTags [7, 7, 5, 9] = .ok q := by
    rw [← hq]
    exact hcongr _ _ fun t ht => by grind
  refine ⟨hq, hother, rfl, ?_, (hlists _).1 (by decide)⟩
  obtain ⟨q', hq', -, hselects⟩ := (hlists [5, 0, 9, 7, 5]).2 (by decide)
  obtain rfl : q = q' := Except.ok.inj (hq.symm.trans hq')
  rw [← Bool.not_eq_true, hselects]
  exact fun h => absurd (h 7 (by decide) (by decide)) (by decide)

end TagQuery

end LinkFabric
