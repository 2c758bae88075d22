import LinkFabric.Proofs.DeclaredLinks
import LinkFabric.Proofs.Moments

/-!
# The declarations of a node follow its calls

Links are declared, withdrawn and declared again while the values of the node change, so the
same declaration may be refused now and accepted later. What is declared in the end, in what
order and how often advertised, is read off the calls: a name stands if it was declared with
success since it was last withdrawn, and the first such declaration is the one that counts.

Main results:

* `Declarations.stands_append_singleton`: one call more, for the names that stand.
* `Declarations.mem_ids_run_iff`: the declared names are those that stand.
* `Declarations.items_run`: the declarations, in order, are what the calls have left.
* `Declarations.declarations_follow_calls`: the contents in terms of the history.
-/

namespace LinkFabric

namespace Declarations

/-! ## One call -/

theorem run_append_singleton (d : Declarations) (calls : List Call) (call : Call) :
    d.run (calls ++ [call]) = (d.run calls).perform call := by
  rw [run, List.foldl_append]
  rfl

theorem withdraw_eq_self_iff {d : Declarations} {id : LinkId} :
    (d.withdraw id).1 = d ↔ id ∉ d.items.map (·.id) := by
  obtain ⟨items⟩ := d
  simp [withdraw]

theorem mem_ids_withdraw {d : Declarations} {id other : LinkId} :
    id ∈ (d.withdraw other).1.items.map (·.id) ↔ id ∈ d.items.map (·.id) ∧ other ≠ id := by
  simp only [withdraw, List.mem_map, List.mem_filter, bne_iff_ne]
  constructor
  · rintro ⟨item, ⟨hitem, hne⟩, rfl⟩
    exact ⟨⟨item, hitem, rfl⟩, hne.symm⟩
  · rintro ⟨⟨item, hitem, rfl⟩, hne⟩
    exact ⟨item, ⟨hitem, hne.symm⟩, rfl⟩

/-! ## Names that stand -/

/-- The name that a call gives back, if it declares a link and is not refused. -/
def declared? (m : Moment Call) : Option LinkId :=
  match m.event with
  | .declare store link => ((empty.run m.before).declare store link).toOption.map (·.2)
  | .withdraw _ | .markAdvertised _ => none

/-- Whether a call withdraws a name. -/
def Call.withdraws (id : LinkId) : Call → Bool
  | .withdraw other => other == id
  | .declare _ _ | .markAdvertised _ => false

/-- A name was declared with success, and not withdrawn since. -/
def Stands (calls : List Call) (id : LinkId) : Prop :=
  ∃ m ∈ moments calls, declared? m = some id ∧ ∀ call ∈ m.after, call.withdraws id = false

instance (calls : List Call) (id : LinkId) : Decidable (Stands calls id) :=
  inferInstanceAs (Decidable (∃ m ∈ moments calls, _ ∧ _))

theorem not_stands_nil {id : LinkId} : ¬ Stands [] id := by
  rintro ⟨m, hm, -⟩
  exact absurd hm List.not_mem_nil

theorem stands_append_singleton {calls : List Call} {call : Call} {id : LinkId} :
    Stands (calls ++ [call]) id ↔
      declared? ⟨calls, call, []⟩ = some id ∨ Stands calls id ∧ call.withdraws id = false := by
  unfold Stands
  simp only [moments_append_singleton, List.mem_append, List.mem_map, List.mem_singleton]
  constructor
  · rintro ⟨_, ⟨m, hm, rfl⟩ | rfl, hdeclared, hafter⟩
    · exact .inr ⟨⟨m, hm, hdeclared, fun c hc => hafter c (List.mem_append_left _ hc)⟩,
        hafter call (List.mem_append_right _ (List.mem_singleton_self _))⟩
    · exact .inl hdeclared
  · rintro (hdeclared | ⟨⟨m, hm, hdeclared, hafter⟩, hcall⟩)
    · exact ⟨_, .inr rfl, hdeclared, fun c hc => absurd hc List.not_mem_nil⟩
    · refine ⟨_, .inl ⟨m, hm, rfl⟩, hdeclared, fun c hc => ?_⟩
      rcases List.mem_append.mp hc with hc | hc
      · exact hafter c hc
      · rw [List.mem_singleton.mp hc]
        exact hcall

/-- The declared names are those that stand. -/
theorem mem_ids_run_iff (calls : List Call) {id : LinkId} :
    id ∈ (empty.run calls).items.map (·.id) ↔ Stands calls id := by
  induction calls using List.reverseRecOn with
  | nil => exact iff_of_false List.not_mem_nil not_stands_nil
  | append_singleton calls call ih =>
    rw [run_append_singleton, stands_append_singleton, ← ih]
    cases call with
    | declare store link =>
      simp only [declared?, Call.withdraws, and_true]
      rcases (empty.run calls).declare_cases store link with
        ⟨cause, hdeclare⟩ | ⟨hknown, hdeclare⟩ | ⟨-, hnew, hdeclare⟩
      · simp [perform_of_error hdeclare, hdeclare, Except.toOption]
      · rw [perform_of_ok hdeclare, hdeclare]
        refine ⟨.inr, ?_⟩
        rintro (heq | h)
        · exact Option.some.inj heq ▸ hknown
        · exact h
      · rw [perform_of_ok hdeclare, hdeclare]
        simp [Except.toOption, or_comm, eq_comm]
    | withdraw other =>
      rw [perform, mem_ids_withdraw]
      simp [declared?, Call.withdraws]
    | markAdvertised now =>
      simp [perform, markAdvertised, declared?, Call.withdraws]

/-! ## What the calls have left -/

/-- The times of the advertisements among some calls. -/
def adverts (calls : List Call) : List Instant :=
  calls.filterMap fun
    | .markAdvertised now => some now
    | .declare _ _ | .withdraw _ => none

/-- What is left of a new declaration after some calls. -/
def outcome (link : Link) (after : List Call) : Option Declaration :=
  if ∀ call ∈ after, call.withdraws link.id = false then
    some ⟨link.id, link, UInt32.ofNat (adverts after).length, (adverts after).getLast?⟩
  else none

/-- What a call has left: a declaration, if it was the first with success of a name that did
not stand, and the name was not withdrawn since. -/
def left (m : Moment Call) : Option Declaration :=
  match m.event with
  | .declare _ link =>
    if declared? m = some link.id ∧ ¬ Stands m.before link.id then outcome link m.after else none
  | .withdraw _ | .markAdvertised _ => none

/-- What a call leaves of a declaration. -/
def Call.leaves (call : Call) (item : Declaration) : Option Declaration :=
  match call with
  | .declare _ _ => some item
  | .withdraw id => if item.id = id then none else some item
  | .markAdvertised now =>
    some { item with advertised := item.advertised + 1, lastAdvertised := some now }

theorem outcome_append_singleton (link : Link) (after : List Call) (call : Call) :
    outcome link (after ++ [call]) = (outcome link after).bind call.leaves := by
  simp only [outcome, List.forall_mem_append, List.forall_mem_singleton]
  by_cases hafter : ∀ c ∈ after, c.withdraws link.id = false
  · rw [if_pos hafter, Option.bind_some, if_congr (and_iff_right hafter) rfl rfl]
    cases call with
    | declare store other => simp [Call.withdraws, Call.leaves, adverts]
    | withdraw id =>
      have hsame : adverts (after ++ [.withdraw id]) = adverts after := by simp [adverts]
      rw [hsame, Call.leaves, Call.withdraws]
      by_cases heq : link.id = id
      · rw [if_pos heq, if_neg (by simp [heq])]
      · rw [if_neg heq, if_pos (beq_false_of_ne (Ne.symm heq))]
    | markAdvertised now => simp [Call.withdraws, Call.leaves, adverts]
  · simp [hafter]

theorem items_withdraw (d : Declarations) (id : LinkId) :
    (d.withdraw id).1.items = d.items.filterMap (Call.withdraw id).leaves := by
  rw [withdraw, ← List.filterMap_eq_filter]
  refine List.filterMap_congr fun item _ => ?_
  rw [Option.guard, Call.leaves]
  by_cases heq : item.id = id <;> simp [heq]

theorem items_markAdvertised (d : Declarations) (now : Instant) :
    (d.markAdvertised now).items = d.items.filterMap (Call.markAdvertised now).leaves :=
  (congrFun List.filterMap_eq_map d.items).symm

theorem left_followedBy (m : Moment Call) (call : Call) :
    left (m.followedBy call) = (left m).bind call.leaves := by
  obtain ⟨before, event, after⟩ := m
  cases event with
  | declare store link =>
    have hleft : ∀ after', left ⟨before, .declare store link, after'⟩ =
        if declared? ⟨before, .declare store link, []⟩ = some link.id ∧ ¬ Stands before link.id
        then outcome link after' else none := fun _ => rfl
    rw [Moment.followedBy, hleft, hleft, outcome_append_singleton]
    split_ifs <;> rfl
  | withdraw id => rfl
  | markAdvertised now => rfl

/-- The declarations, in order, are what the calls have left. -/
theorem items_run (calls : List Call) : (empty.run calls).items = (moments calls).filterMap left := by
  induction calls using List.reverseRecOn with
  | nil => rfl
  | append_singleton calls call ih =>
    rw [run_append_singleton, moments_append_singleton, List.filterMap_append, List.filterMap_map]
    have hearlier : (moments calls).filterMap (left ∘ (·.followedBy call)) =
        (empty.run calls).items.filterMap call.leaves := by
      rw [ih, List.filterMap_filterMap]
      exact List.filterMap_congr fun m _ => left_followedBy m call
    rw [hearlier]
    cases call with
    | declare store link =>
      have hkept : (empty.run calls).items.filterMap (Call.declare store link).leaves =
          (empty.run calls).items := List.filterMap_some
      rw [hkept]
      rcases (empty.run calls).declare_cases store link with
        ⟨cause, hdeclare⟩ | ⟨hknown, hdeclare⟩ | ⟨-, hnew, hdeclare⟩
      · rw [perform_of_error hdeclare]
        simp [left, declared?, hdeclare, Except.toOption]
      · rw [perform_of_ok hdeclare]
        simp [left, (mem_ids_run_iff calls).mp hknown]
      · rw [perform_of_ok hdeclare]
        have hfirst : ¬ Stands calls link.id := fun h => hnew ((mem_ids_run_iff calls).mpr h)
        simp [left, declared?, hdeclare, Except.toOption, hfirst, outcome, adverts]
    | withdraw id => exact (items_withdraw _ id).trans (List.append_nil _).symm
    | markAdvertised now => exact (items_markAdvertised _ now).trans (List.append_nil _).symm

/-- After any calls, with other values of the node at each of them, names are different and each
is that of its link, which obeys the rule for keys. The declared names are those that were
declared with success since they were last withdrawn. In the order of the first such
declaration, the link of that declaration is there, with the number of advertisements since,
modulo `2 ^ 32`, and the time of the last. From here on, a declaration that is refused or
whose name stands changes nothing, and a withdrawal says whether it changes anything. -/
theorem declarations_follow_calls (calls : List Call) :
    let d := empty.run calls
    (d.items.map (·.id)).Nodup ∧
    (∀ item ∈ d.items, item.id = item.link.id ∧ item.link.checkKeys = .ok ()) ∧
    (∀ id, id ∈ d.items.map (·.id) ↔ Stands calls id) ∧
    d.items = (moments calls).filterMap left ∧
    (∀ store link, (∃ cause, d.declare store link = .error cause) ∨ Stands calls link.id →
      d.perform (.declare store link) = d) ∧
    ∀ id, (d.withdraw id).2 = true ↔ (d.withdraw id).1 ≠ d := by
  intro d
  have hsound : d.Sound := sound_run calls
  refine ⟨hsound.distinct, fun item hitem => ⟨hsound.named item hitem, hsound.keyed item hitem⟩,
    fun id => mem_ids_run_iff calls, items_run calls, fun store link hidle => ?_, fun id => ?_⟩
  · rcases d.declare_cases store link with ⟨_, hdeclare⟩ | ⟨_, hdeclare⟩ | ⟨-, hnew, hdeclare⟩
    · exact perform_of_error hdeclare
    · exact perform_of_ok hdeclare
    · rcases hidle with ⟨cause, hrefused⟩ | hstands
      · rw [hrefused] at hdeclare
        cases hdeclare
      · exact absurd ((mem_ids_run_iff calls).mpr hstands) hnew
  · rw [ne_eq, withdraw_eq_self_iff, not_not]
    exact find?_isSome_iff

/-- A node declares one link, advertises, and declares another. The first is declared again in
vain while its key is missing, and once more after it was withdrawn: then it comes last and
has not been advertised. -/
theorem withdrawn_link_comes_last :
    let store := KeyStore.empty.define 1 (.ofWord32 0)
    let first := Link.new .send 1 7
    let second := Link.new .sync 1 1
    let calls : List Call :=
      [.declare store first, .markAdvertised 10, .declare store second, .withdraw first.id,
        .declare .empty first, .markAdvertised 20, .markAdvertised 30, .declare store first,
        .declare store second]
    let d := empty.run calls
    d.items = [⟨second.id, second, 2, some 30⟩, ⟨first.id, first, 0, none⟩] ∧
    Stands calls first.id ∧ ¬ Stands (calls.take 7) first.id ∧
    d.perform (.declare .empty second) = d ∧
    (d.withdraw first.id).2 = true ∧ (d.withdraw first.id).1 ≠ d := by
  intro store first second calls d
  obtain ⟨-, -, hstands, hitems, hidle, hwithdraw⟩ := declarations_follow_calls calls
  have hleft : d.items = [⟨second.id, second, 2, some 30⟩, ⟨first.id, first, 0, none⟩] :=
    hitems.trans (by decide +kernel)
  have hfirst : Stands calls first.id := (hstands _).mp (by rw [hleft]; simp)
  have htrue : (d.withdraw first.id).2 = true := by decide +kernel
  refine ⟨hleft, hfirst, ?_, hidle _ _ (.inl ⟨.unknownKey 1, rfl⟩), htrue,
    (hwithdraw _).mp htrue⟩
  decide +kernel

end Declarations

end LinkFabric
