import LinkFabric.Node.Basic
import LinkFabric.Proofs.Installation

/-!
# Values reach sinks and nothing else

The leader may send a node any values: for sinks, for keys that are bound otherwise or not at
all, of any shape and in any order. A value that does not belong is passed over, and the ones
after it are written all the same. What a key holds in the end depends on the values for this
key alone: the first one gives a new key its shape, and of the values of the key's shape the
last one stands.

Main results:

* `KeyStore.find?_trySet`: what one write does to every key.
* `Binder.find?_writeSinks`: a key holds what the values for it have made of it.
* `KeyStore.foldl_offer_some`, `KeyStore.foldl_offer_none`: what values make of a key, one after
  another, in terms of the whole list.
* `Binder.receive_of_ignores`: what is not from the leader, or not for the node, has no effect.
* `sink_writes_confined`: all of this in one statement.
-/

namespace LinkFabric

/-! ## One key and the values for it -/

namespace KeyStore

/-- What a key holds after a value was offered to it. -/
def offer (held? : Option Value) (v : Value) : Value :=
  match held? with
  | some held => if held.shape = v.shape then v else held
  | none => v

theorem find?_trySet (s : KeyStore) (key key₀ : Key) (v : Value) :
    (s.trySet key v).values.find? key₀ =
      if key = key₀ then some (offer (s.values.find? key₀) v) else s.values.find? key₀ := by
  by_cases hkey : key = key₀
  · subst hkey
    rw [if_pos rfl, trySet, set]
    cases hfind : s.values.find? key with
    | none => exact s.values.find?_insert_self key v
    | some held =>
      by_cases hshape : held.shape = v.shape
      · simp [offer, hshape, define]
      · simp [offer, hshape, hfind]
  · rw [if_neg hkey, trySet, set]
    split
    · rename_i s' hset
      -- Both ways to succeed define the key, which leaves the others alone.
      have hdefine : s' = s.define key v := by
        split at hset
        · split_ifs at hset
          exact (Except.ok.inj hset).symm
        · exact (Except.ok.inj hset).symm
      rw [hdefine]
      exact s.values.find?_insert_of_ne v hkey
    · rfl

/-- The last of some values that has the shape of a value, or else this value. -/
def lastAlike (held : Value) (values : List Value) : Value :=
  ((values.filter fun v => v.shape = held.shape).getLast?).getD held

theorem shape_lastAlike (held : Value) (values : List Value) :
    (lastAlike held values).shape = held.shape := by
  unfold lastAlike
  cases hlast : (values.filter fun v => v.shape = held.shape).getLast? with
  | none => rfl
  | some v =>
    have hmem := List.mem_filter.mp (List.mem_of_getLast? hlast)
    exact of_decide_eq_true hmem.2

theorem lastAlike_cons_of_alike {held v : Value} (h : v.shape = held.shape) (values : List Value) :
    lastAlike held (v :: values) = lastAlike v values := by
  rw [lastAlike, lastAlike, List.filter_cons, if_pos (decide_eq_true h), List.getLast?_cons, h]
  rfl

theorem lastAlike_cons_of_unlike {held v : Value} (h : v.shape ≠ held.shape)
    (values : List Value) : lastAlike held (v :: values) = lastAlike held values := by
  rw [lastAlike, lastAlike, List.filter_cons, if_neg (by simpa using h)]

/-- Values offered to a key that holds one: those of another shape do not count, wherever they
stand among the others. -/
theorem foldl_offer_some (held : Value) (values : List Value) :
    values.foldl (fun held? v => some (offer held? v)) (some held) =
      some (lastAlike held values) := by
  induction values generalizing held with
  | nil => rfl
  | cons v values ih =>
    rw [List.foldl_cons, ih]
    by_cases hshape : held.shape = v.shape
    · have hoffer : offer (some held) v = v := if_pos hshape
      rw [hoffer, lastAlike_cons_of_alike hshape.symm]
    · have hoffer : offer (some held) v = held := if_neg hshape
      rw [hoffer, lastAlike_cons_of_unlike (Ne.symm hshape)]

/-- Values offered to a new key: the first one gives it its shape. -/
theorem foldl_offer_none (values : List Value) :
    values.foldl (fun held? v => some (offer held? v)) none =
      values.head?.bind fun first => (values.filter fun v => v.shape = first.shape).getLast? := by
  cases values with
  | nil => rfl
  | cons first rest =>
    rw [List.foldl_cons, List.head?_cons, Option.bind_some, List.filter_cons,
      if_pos (decide_eq_true rfl), List.getLast?_cons]
    exact foldl_offer_some first rest

end KeyStore

/-! ## Writing to sinks -/

theorem BindingTable.isSink_iff_mem {t : BindingTable} {key : Key} :
    t.isSink key = true ↔ ∃ rate, ⟨key, rate, .sink⟩ ∈ t.bindings := by
  rw [isSink_iff]
  constructor
  · rintro ⟨⟨key, rate, role⟩, hmem, rfl, rfl⟩
    exact ⟨rate, hmem⟩
  · rintro ⟨rate, hmem⟩
    exact ⟨_, hmem, rfl, rfl⟩

namespace Binder

/-- The values for a key among some records, in their order. -/
def valuesFor (key : Key) (records : List Datum) : List Value :=
  (records.filter fun d => d.key = key).map (·.value)

theorem table_writeSink (b : Binder) (d : Datum) : (b.writeSink d).table = b.table := by
  unfold writeSink
  split_ifs <;> rfl

theorem find?_writeSink (b : Binder) (d : Datum) (key : Key) :
    (b.writeSink d).store.values.find? key =
      if b.table.isSink key = true ∧ d.key = key then
        some (KeyStore.offer (b.store.values.find? key) d.value)
      else b.store.values.find? key := by
  unfold writeSink
  by_cases hkey : d.key = key
  · subst hkey
    by_cases hsink : b.table.isSink d.key = true
    · rw [if_pos hsink, if_pos ⟨hsink, rfl⟩, KeyStore.find?_trySet, if_pos rfl]
    · rw [if_neg hsink, if_neg fun h => hsink h.1]
  · rw [if_neg fun h : _ ∧ d.key = key => hkey h.2]
    split_ifs
    · rw [KeyStore.find?_trySet, if_neg hkey]
    · rfl

theorem table_writeSinks (b : Binder) (records : List Datum) :
    (b.writeSinks records).table = b.table :=
  List.foldlRecOn (motive := fun c => c.table = b.table) records writeSink rfl
    fun c hc d _ => (c.table_writeSink d).trans hc

/-- A sink holds what the values for it have made of it, and other keys hold what they held. -/
theorem find?_writeSinks (b : Binder) (records : List Datum) (key : Key) :
    (b.writeSinks records).store.values.find? key =
      if b.table.isSink key = true then
        (valuesFor key records).foldl (fun held? v => some (KeyStore.offer held? v))
          (b.store.values.find? key)
      else b.store.values.find? key := by
  -- The bindings stay as they are, so a key that is a sink at the start is one to the end.
  induction records generalizing b with
  | nil => exact (ite_self _).symm
  | cons d records ih =>
    rw [writeSinks, List.foldl_cons, ← writeSinks, ih, table_writeSink, find?_writeSink]
    by_cases hsink : b.table.isSink key = true
    · by_cases hkey : d.key = key
      · simp [hsink, hkey, valuesFor]
      · simp [hsink, hkey, valuesFor]
    · simp [hsink]

/-- A key that exists: a sink takes the last value of its shape. -/
theorem find?_writeSinks_of_some {b : Binder} {key : Key} {held : Value}
    (h : b.store.values.find? key = some held) (records : List Datum) :
    (b.writeSinks records).store.values.find? key =
      some (if b.table.isSink key = true then KeyStore.lastAlike held (valuesFor key records)
        else held) := by
  rw [find?_writeSinks, h, KeyStore.foldl_offer_some]
  split_ifs <;> rfl

/-- A sink that does not exist: the first value for it gives it its shape. -/
theorem find?_writeSinks_of_none {b : Binder} {key : Key}
    (h : b.store.values.find? key = none) (hsink : b.table.isSink key = true)
    (records : List Datum) :
    (b.writeSinks records).store.values.find? key =
      (valuesFor key records).head?.bind fun first =>
        ((valuesFor key records).filter fun v => v.shape = first.shape).getLast? := by
  rw [find?_writeSinks, if_pos hsink, h, KeyStore.foldl_offer_none]

/-! ## What is taken in from the network -/

/-- A datagram is not for a node in a role: the node follows nobody, or somebody at another
address, or the datagram is no message, or one for a leader. -/
def Ignores (station : Station) (role : Role) (source : Address) (bytes : Bytes) : Prop :=
  (∀ leader address, role ≠ .follower leader address) ∨
  (∃ leader address, role = .follower leader address ∧ source ≠ address) ∨
  (∃ cause, Message.decode station bytes = .error cause) ∨
  (∃ header links, Message.decode station bytes = .ok (header, .advert links)) ∨
  (∃ header h, Message.decode station bytes = .ok (header, .heartbeat h))

/-- A datagram that would change nothing as a message changes nothing, whoever it comes from. -/
theorem receive_eq_self {b : Binder} {station : Station} {bytes : Bytes} {now : Instant}
    (h : ∀ header m, Message.decode station bytes = .ok (header, m) → b.apply now m = b)
    (role : Role) (source : Address) : b.receive station role source bytes now = b := by
  cases role with
  | candidate => rfl
  | leader => rfl
  | follower leader address =>
    by_cases hsource : source = address
    · subst hsource
      cases hdecode : Message.decode station bytes with
      | error cause => simp [receive, hdecode]
      | ok read => rw [receive_of_decode hdecode, h _ _ hdecode]
    · exact if_pos hsource

theorem receive_of_ignores {station : Station} {role : Role} {source : Address} {bytes : Bytes}
    (h : Ignores station role source bytes) (b : Binder) (now : Instant) :
    b.receive station role source bytes now = b := by
  rcases h with hrole | ⟨leader, address, rfl, hsource⟩ | ⟨cause, herror⟩ |
    ⟨header, links, hdecode⟩ | ⟨header, hb, hdecode⟩
  · cases role with
    | candidate => rfl
    | leader => rfl
    | follower leader address => exact absurd rfl (hrole leader address)
  · exact if_pos hsource
  · apply receive_eq_self
    intro _ _ hok
    rw [herror] at hok
    cases hok
  all_goals
    apply receive_eq_self
    intro _ _ hok
    rw [hdecode] at hok
    cases hok
    rfl

end Binder

/-! ## All writes -/

/-- Values for a node are written to its sinks and nowhere else, and the bindings stay. A key
that is no sink keeps its value, and no key that exists changes its shape. A sink that exists
ends with the last value for it that has its shape, or keeps its own if there is none. A sink
that does not exist ends with the last value for it that has the shape of the first.

Of what arrives at the port for links, only bindings and values of the followed leader have an
effect: bindings leave the values alone, values are written as above, and everything else
changes nothing at the node. -/
theorem sink_writes_confined :
    (∀ (b : Binder) (records : List Datum),
      (b.writeSinks records).table = b.table ∧
      ∀ key : Key,
        let before := b.store.values.find? key
        let after := (b.writeSinks records).store.values.find? key
        let values := (records.filter fun d => d.key = key).map (·.value)
        ((∀ rate, ⟨key, rate, .sink⟩ ∉ b.table.bindings) → after = before) ∧
        (∀ held, before = some held → ∃ v, after = some v ∧ v.shape = held.shape) ∧
        ((∃ rate, ⟨key, rate, .sink⟩ ∈ b.table.bindings) →
          (∀ held, before = some held →
            after = some (((values.filter fun v => v.shape = held.shape).getLast?).getD held)) ∧
          (before = none → after =
            values.head?.bind fun first =>
              (values.filter fun v => v.shape = first.shape).getLast?))) ∧
    (∀ (n : Node) (now : Instant) (source : Address) (bytes : Bytes),
      let received := bytes.take Datagram.receiveLength
      let after := n.receive now .link source bytes
      (Binder.Ignores n.settings.station n.role source received → after = n) ∧
      ∀ leader header, n.role = .follower leader source →
        (∀ first bindings,
          Message.decode n.settings.station received = .ok (header, .bind first bindings) →
          after = { n with binder :=
            { n.binder with table := n.binder.table.apply first bindings now } }) ∧
        (∀ records, Message.decode n.settings.station received = .ok (header, .data records) →
          after = { n with binder := n.binder.writeSinks records })) := by
  refine ⟨fun b records => ⟨b.table_writeSinks records, ?_⟩, ?_⟩
  · intro key before after values
    refine ⟨fun hfree => ?_, fun held hheld => ?_, fun hbound => ?_⟩
    · have hnot : ¬ b.table.isSink key = true := fun hsink =>
        not_exists.mpr hfree (BindingTable.isSink_iff_mem.mp hsink)
      exact (b.find?_writeSinks records key).trans (if_neg hnot)
    · refine ⟨_, Binder.find?_writeSinks_of_some hheld records, ?_⟩
      split_ifs
      · exact KeyStore.shape_lastAlike held values
      · rfl
    · have hsink : b.table.isSink key = true := BindingTable.isSink_iff_mem.mpr hbound
      refine ⟨fun held hheld => ?_, fun hnew => Binder.find?_writeSinks_of_none hnew hsink records⟩
      have hafter := Binder.find?_writeSinks_of_some hheld records
      rwa [if_pos hsink] at hafter
  · intro n now source bytes received after
    refine ⟨fun hignores => ?_, fun leader header hrole => ⟨?_, ?_⟩⟩
    · show { n with binder := _ } = n
      rw [Binder.receive_of_ignores hignores]
    · intro first bindings hdecode
      show { n with binder := _ } = _
      rw [hrole, Binder.receive_of_decode hdecode]
      rfl
    · intro records hdecode
      show { n with binder := _ } = _
      rw [hrole, Binder.receive_of_decode hdecode]
      rfl

/-- Eight values for a node with the sinks 1 and 2: a boolean and a word in turn for key 1,
which holds a word; three values for key 2, which does not exist and takes the shape of the
first; one each for the source 3 and for a key without binding. Then a datagram of the leader
with a word for key 1, and the same datagram from elsewhere. -/
theorem mixed_values_written :
    let b : Binder :=
      { table := (BindingTable.empty 0).apply true
          [⟨1, 50, .sink⟩, ⟨3, 50, .source⟩, ⟨2, 50, .sink⟩] 0
        store := (KeyStore.empty.define 1 (.ofWord32 5)).define 3 (.ofWord32 7) }
    let after := (b.writeSinks
      [⟨1, .ofBool true⟩, ⟨1, .ofWord32 6⟩, ⟨2, .ofBool false⟩, ⟨2, .ofWord32 9⟩,
        ⟨2, .ofBool true⟩, ⟨3, .ofWord32 8⟩, ⟨4, .ofWord32 8⟩, ⟨1, .ofBool false⟩]).store.values
    let n : Node :=
      { Node.start (.new 10 100) .empty fun _ => 0 with role := .follower 5 .loopback, binder := b }
    let bytes : Bytes :=
      [0x4c, 0x4b, 0x4c, 0x48, 0x12, 1, 0, 0, 5, 0, 0, 0, 0, 0, 0, 0, 0, 0, 0, 0,
        1, 0, 0, 0, 5, 1, 42, 0, 0, 0]
    after.find? 1 = some (.ofWord32 6) ∧ after.find? 2 = some (.ofBool true) ∧
    after.find? 3 = some (.ofWord32 7) ∧ after.find? 4 = none ∧
    n.receive 0 .link .loopback bytes = { n with binder := b.writeSinks [⟨1, .ofWord32 42⟩] } ∧
    n.receive 0 .link (.ofOctets 10 0 0 9) bytes = n := by
  intro b after n bytes
  obtain ⟨hwrites, hport⟩ := sink_writes_confined
  obtain ⟨-, hkeys⟩ := hwrites b
    [⟨1, .ofBool true⟩, ⟨1, .ofWord32 6⟩, ⟨2, .ofBool false⟩, ⟨2, .ofWord32 9⟩,
      ⟨2, .ofBool true⟩, ⟨3, .ofWord32 8⟩, ⟨4, .ofWord32 8⟩, ⟨1, .ofBool false⟩]
  have hfree : ∀ key, b.table.isSink key = false →
      ∀ rate, ⟨key, rate, .sink⟩ ∉ b.table.bindings := by
    intro key hkey rate hmem
    have hsink := BindingTable.isSink_iff_mem.mpr ⟨rate, hmem⟩
    rw [hkey] at hsink
    cases hsink
  refine ⟨?_, ?_, (hkeys 3).1 (hfree 3 (by decide)), (hkeys 4).1 (hfree 4 (by decide)), ?_, ?_⟩
  · exact ((hkeys 1).2.2 ⟨50, by decide⟩).1 (.ofWord32 5) (by decide)
  · exact ((hkeys 2).2.2 ⟨50, by decide⟩).2 (by decide)
  · exact ((hport n 0 .loopback bytes).2 5 ⟨.data, 0, 5, 0⟩ rfl).2 _ (by decide +kernel)
  · exact (hport n 0 (.ofOctets 10 0 0 9) bytes).1 (.inr (.inl ⟨5, .loopback, rfl, by decide⟩))

end LinkFabric
