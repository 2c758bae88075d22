import LinkFabric.Coordination.Reduction
import LinkFabric.KeyStore
import Mathlib.Data.List.Basic
import Mathlib.Tactic.SplitIfs

/-!
# One value for a window of values

The values of a window may have any shapes, and five aggregations make one value of them. What
comes out has the shape of the first value, so it can be stored wherever that one can be; values
of other shapes do not matter. Where there is nothing to compute with, the last value of that
shape stands as it is. Elsewhere every value of that shape gives one number, since its bytes
are as many as its shape says, and the result is made of all these numbers.

Main results:

* `Reduction.reduce_cons`: reducing in terms of the values that are like the first.
* `Reduction.exists_numbers_alike`: where numbers are asked for there are some, so the way out
  for a window without numbers is never taken.
* `Reduction.reduce_of_latest`, `Reduction.reduce_of_numbers`: the two ways to a result.
* `Reduction.reduction_keeps_shape`: all of this in one statement.
-/

namespace LinkFabric

/-! ## Values as numbers -/

/-- A value that is not empty has a first element. -/
theorem Value.exists_number? {v : Value} (h : v.shape.count ≠ 0) : ∃ x, v.number? = some x := by
  have hcount : 1 ≤ v.shape.count.toNat := by
    refine Nat.one_le_iff_ne_zero.mpr fun hzero => h ?_
    exact UInt8.toNat.inj hzero
  have hlong : v.shape.type.size ≤ v.data.length := by
    rw [v.length_data, Shape.byteLength]
    exact Nat.le_mul_of_pos_right _ hcount
  exact ⟨_, if_neg (Nat.not_lt.mpr hlong)⟩

/-- Whether a key takes a value depends on the shape of the value alone. -/
theorem KeyStore.isOk_set_congr {v w : Value} (h : v.shape = w.shape) (s : KeyStore) (key : Key) :
    (s.set key v).isOk = (s.set key w).isOk := by
  unfold set
  rw [h]
  cases s.values.find? key with
  | none => rfl
  | some held =>
    simp only
    split_ifs <;> rfl

namespace Reduction

/-! ## The values that count -/

/-- The values of a window with the shape of a value. -/
def alike (first : Value) (samples : List Value) : List Value :=
  samples.filter fun v => v.shape = first.shape

theorem shape_of_mem_alike {first v : Value} {samples : List Value}
    (h : v ∈ alike first samples) : v.shape = first.shape :=
  of_decide_eq_true (List.mem_filter.mp h).2

theorem alike_cons (first : Value) (rest : List Value) :
    alike first (first :: rest) = first :: alike first rest :=
  List.filter_cons_of_pos (decide_eq_true rfl)

theorem alike_ne_nil (first : Value) (rest : List Value) : alike first (first :: rest) ≠ [] := by
  rw [alike_cons]
  exact List.cons_ne_nil _ _

theorem alike_alike (first : Value) (samples : List Value) :
    alike first (alike first samples) = alike first samples := by
  rw [alike, alike, List.filter_filter]
  exact List.filter_congr fun v _ => Bool.and_self _

theorem exists_combine? {aggregation : Aggregation} (h : aggregation ≠ .any)
    (xs : List Binary64) : ∃ x, combine? aggregation xs = some x := by
  cases aggregation with
  | any => exact absurd rfl h
  | min | max | sum | avg => exact ⟨_, rfl⟩

/-- The last value like the first one stands if nothing is to be computed, if the values are no
single numbers or if none of them gives a number; otherwise the numbers are combined. -/
theorem reduce_cons (aggregation : Aggregation) (first : Value) (rest : List Value) :
    reduce aggregation (first :: rest) =
      let window := alike first (first :: rest)
      let xs := window.filterMap (·.number?)
      if aggregation = .any ∨ isSingleNumber first.shape = false ∨ xs = [] then window.getLast?
      else (combine? aggregation xs).map (Value.ofNumber first.shape.type) := by
  have hwindow : first :: rest.filter (fun v => v.shape == first.shape) =
      alike first (first :: rest) := by
    rw [alike_cons, alike]
    rfl
  simp only [reduce, hwindow, List.getLast?_eq_some_getLast (alike_ne_nil first rest),
    Bool.or_eq_true, Bool.not_eq_true', decide_eq_true_eq, List.isEmpty_iff]
  by_cases hnothing : aggregation = .any ∨ isSingleNumber first.shape = false
  · rw [if_pos hnothing, if_pos (hnothing.imp_right Or.inl)]
  · obtain ⟨hany, hshape⟩ := not_or.mp hnothing
    obtain ⟨x, hx⟩ := exists_combine? hany ((alike first (first :: rest)).filterMap (·.number?))
    rw [if_neg hnothing, hx]
    simp [hany, hshape]

theorem reduce_alike (aggregation : Aggregation) (first : Value) (rest : List Value) :
    reduce aggregation (alike first (first :: rest)) = reduce aggregation (first :: rest) := by
  have hwindow : alike first (first :: alike first rest) = alike first (first :: rest) := by
    rw [← alike_cons, alike_alike]
  rw [alike_cons, reduce_cons, reduce_cons, hwindow]

/-! ## The two ways to a result -/

theorem isSingleNumber_iff {s : Shape} :
    isSingleNumber s = true ↔ s.count = 1 ∧ s.type ≠ .bool := by
  have hnumeric : ∀ t : ScalarType, t.isNumeric = true ↔ t ≠ .bool := by
    intro t
    cases t <;> decide
  rw [isSingleNumber, Bool.and_eq_true, beq_iff_eq, hnumeric]

/-- Where there is nothing to compute with, the last value like the first one stands. -/
theorem reduce_of_latest {aggregation : Aggregation} {first : Value}
    (h : aggregation = .any ∨ isSingleNumber first.shape = false) (rest : List Value) :
    reduce aggregation (first :: rest) = (alike first (first :: rest)).getLast? := by
  rw [reduce_cons]
  exact if_pos (h.imp_right .inl)

/-- The numbers of some values, none of which is empty. -/
theorem exists_numbers {samples : List Value} (h : ∀ v ∈ samples, v.shape.count ≠ 0) :
    ∃ xs, samples.map (·.number?) = xs.map some ∧ samples.filterMap (·.number?) = xs := by
  induction samples with
  | nil => exact ⟨[], rfl, rfl⟩
  | cons v samples ih =>
    obtain ⟨x, hx⟩ := Value.exists_number? (h v List.mem_cons_self)
    obtain ⟨xs, hmap, hfilter⟩ := ih fun w hw => h w (List.mem_cons_of_mem _ hw)
    refine ⟨x :: xs, ?_, ?_⟩
    · rw [List.map_cons, hx, hmap, List.map_cons]
    · rw [List.filterMap_cons_some hx, hfilter]

/-- Every value like a single number gives a number, so there are numbers to combine. -/
theorem exists_numbers_alike {first : Value} (hshape : isSingleNumber first.shape = true)
    (rest : List Value) :
    ∃ xs, (alike first (first :: rest)).map (·.number?) = xs.map some ∧
      (alike first (first :: rest)).filterMap (·.number?) = xs ∧ xs ≠ [] := by
  have hcount : ∀ v ∈ alike first (first :: rest), v.shape.count ≠ 0 := by
    intro v hv
    rw [shape_of_mem_alike hv, (isSingleNumber_iff.mp hshape).1]
    decide
  obtain ⟨xs, hnumbers, hxs⟩ := exists_numbers hcount
  refine ⟨xs, hnumbers, hxs, ?_⟩
  rintro rfl
  exact alike_ne_nil first rest (List.map_eq_nil_iff.mp hnumbers)

/-- Where there is something to compute with, every value like the first one counts. -/
theorem reduce_of_numbers {aggregation : Aggregation} {first : Value} (h : aggregation ≠ .any)
    (hshape : isSingleNumber first.shape = true) (rest : List Value) :
    ∃ xs x, (alike first (first :: rest)).map (·.number?) = xs.map some ∧
      combine? aggregation xs = some x ∧
      reduce aggregation (first :: rest) = some (Value.ofNumber first.shape.type x) := by
  obtain ⟨xs, hnumbers, hxs, hne⟩ := exists_numbers_alike hshape rest
  obtain ⟨x, hx⟩ := exists_combine? h xs
  refine ⟨xs, x, hnumbers, hx, ?_⟩
  have hcompute : ¬(aggregation = .any ∨ isSingleNumber first.shape = false ∨ xs = []) := by
    simp [h, hshape, hne]
  rw [reduce_cons]
  simp only [hxs, if_neg hcompute, hx, Option.map_some]

/-- A window that is not empty is reduced to a value with the shape of the first. -/
theorem exists_reduce_cons (aggregation : Aggregation) (first : Value) (rest : List Value) :
    ∃ result, reduce aggregation (first :: rest) = some result ∧ result.shape = first.shape := by
  by_cases h : aggregation = .any ∨ isSingleNumber first.shape = false
  · have hne := alike_ne_nil first rest
    refine ⟨_, (reduce_of_latest h rest).trans (List.getLast?_eq_some_getLast hne), ?_⟩
    exact shape_of_mem_alike (List.getLast_mem hne)
  · obtain ⟨hany, hshape⟩ := not_or.mp h
    have hsingle : isSingleNumber first.shape = true := Bool.of_not_eq_false hshape
    obtain ⟨-, x, -, -, hreduce⟩ := reduce_of_numbers hany hsingle rest
    refine ⟨_, hreduce, ?_⟩
    have hcount : first.shape.count = 1 := (isSingleNumber_iff.mp hsingle).1
    show (⟨first.shape.type, 1⟩ : Shape) = first.shape
    rw [← hcount]

theorem exists_reduce (aggregation : Aggregation) {samples : List Value} (h : samples ≠ []) :
    ∃ value, reduce aggregation samples = some value := by
  obtain ⟨first, rest, rfl⟩ := List.exists_cons_of_ne_nil h
  obtain ⟨result, hresult, -⟩ := exists_reduce_cons aggregation first rest
  exact ⟨result, hresult⟩

/-! ## All windows -/

/-- A window gives a value iff it is not empty. The value has the type and the count of the
first value of the window, and as many bytes as these ask for, so a key takes it iff it takes
the first. It is the same without the values of another type or count. For the latest value,
for arrays and empty values and for booleans it is the last value that has the type and the
count of the first; otherwise it is made of the numbers of all these values, one for each. -/
theorem reduction_keeps_shape (aggregation : Aggregation) (samples : List Value) :
    (reduce aggregation samples = none ↔ samples = []) ∧
    ∀ first, samples.head? = some first →
      let window := samples.filter fun v => v.shape = first.shape
      ∃ result, reduce aggregation samples = some result ∧
        result.shape = first.shape ∧
        result.data.length = first.shape.type.size * first.shape.count.toNat ∧
        (∀ (s : KeyStore) (key : Key), (s.set key result).isOk = (s.set key first).isOk) ∧
        reduce aggregation window = some result ∧
        (aggregation = .any ∨ first.shape.count ≠ 1 ∨ first.shape.type = .bool →
          window.getLast? = some result) ∧
        (aggregation ≠ .any → first.shape.count = 1 → first.shape.type ≠ .bool →
          ∃ xs x, window.map (·.number?) = xs.map some ∧ combine? aggregation xs = some x ∧
            result = Value.ofNumber first.shape.type x) := by
  refine ⟨⟨fun hnone => ?_, fun hempty => by rw [hempty]; rfl⟩, fun first hfirst => ?_⟩
  · by_contra hne
    obtain ⟨value, hvalue⟩ := exists_reduce aggregation hne
    rw [hnone] at hvalue
    cases hvalue
  · obtain ⟨rest, rfl⟩ := List.head?_eq_some_iff.mp hfirst
    intro window
    obtain ⟨result, hresult, hshape⟩ := exists_reduce_cons aggregation first rest
    refine ⟨result, hresult, hshape, ?_, KeyStore.isOk_set_congr hshape,
      (reduce_alike aggregation first rest).trans hresult, fun hlatest => ?_, ?_⟩
    · rw [result.length_data, hshape]
      rfl
    · have hcases : aggregation = .any ∨ isSingleNumber first.shape = false := by
        refine hlatest.imp_right fun hother => ?_
        rw [← Bool.not_eq_true, isSingleNumber_iff, not_and_or, not_not]
        exact hother
      rw [← hresult, reduce_of_latest hcases]
      rfl
    · intro hany hcount htype
      obtain ⟨xs, x, hnumbers, hx, hreduce⟩ :=
        reduce_of_numbers hany (isSingleNumber_iff.mpr ⟨hcount, htype⟩) rest
      refine ⟨xs, x, hnumbers, hx, ?_⟩
      exact Option.some.inj (hresult.symm.trans hreduce)

/-- A window of words with a boolean and an array among them: the largest word is made of the
three words, and comes out without the others too; the latest value is the last word. -/
theorem mixed_window_reduced :
    let words : List Value := [.ofWord32 3, .ofWord32 5, .ofWord32 4]
    let samples : List Value :=
      [.ofWord32 3, .ofBool true, .ofWord32 5, .ofWord32 4, ⟨⟨.u16, 2⟩, [1, 0, 2, 0], rfl⟩]
    (∃ result xs x, reduce .max samples = some result ∧ reduce .max words = some result ∧
      words.map (·.number?) = xs.map some ∧ combine? .max xs = some x ∧
      result = .ofNumber .u32 x ∧ result = .ofWord32 5) ∧
    reduce .any samples = some (.ofWord32 4) := by
  intro words samples
  obtain ⟨result, hresult, -, -, -, hwindow, -, hmax⟩ :=
    (reduction_keeps_shape .max samples).2 (.ofWord32 3) rfl
  obtain ⟨xs, x, hxs, hx, hnumber⟩ := hmax (by decide) rfl (by decide)
  obtain ⟨latest, hlatest, -, -, -, -, hlast, -⟩ :=
    (reduction_keeps_shape .any samples).2 (.ofWord32 3) rfl
  have hfive : reduce .max samples = some (.ofWord32 5) := by decide +kernel
  refine ⟨⟨result, xs, x, hresult, hwindow, hxs, hx, hnumber, ?_⟩, ?_⟩
  · exact Option.some.inj (hresult.symm.trans hfive)
  · rw [hlatest]
    exact (hlast (.inl rfl)).symm

end Reduction

end LinkFabric
