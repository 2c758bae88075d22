import LinkFabric.Coordination.Coordinator
import LinkFabric.Proofs.Aggregation
import LinkFabric.Proofs.RegistryHistory

/-!
# What is left of a term

A coordinator works while its device leads. When it takes notice that the device leads no
more, it forgets the links, the followers and the values of the term, but only if it knows
any link or follower. A term that ends with neither leaves its values behind, and a link of
a later term can read them.

Main results:

* `Coordinator.bounds_run`: how much a coordinator may hold never changes.
* `Coordinator.mem_buffer_run`: every value held was held before or was brought by an uplink.
* `Coordinator.ended_term_forgotten_unless_idle`: what the end of a term leaves.
-/

namespace LinkFabric

theorem SortedMap.eq_empty_of_isEmpty {κ α : Type} [Ranked κ] {m : SortedMap κ α}
    (h : m.isEmpty = true) : m = .empty := by
  obtain ⟨entries, _⟩ := m
  obtain rfl := List.isEmpty_iff.mp h
  rfl

/-! ## Links and followers -/

namespace Registry

theorem eq_empty_of_isEmpty {r : Registry} (h : r.isEmpty = true) : r = .empty r.limits := by
  rw [empty, ← SortedMap.eq_empty_of_isEmpty h]

theorem limits_tryUpdate (r : Registry) (link : Link) (address : Address) :
    (r.tryUpdate link address).limits = r.limits := by
  rcases r.tryUpdate_eq link address with ⟨_, h⟩ | ⟨_, _, h⟩ <;> rw [h]

theorem limits_foldl_tryUpdate (links : List Link) (r : Registry) (address : Address) :
    (links.foldl (fun r link => r.tryUpdate link address) r).limits = r.limits := by
  induction links generalizing r with
  | nil => rfl
  | cons link links ih => rw [List.foldl_cons, ih, limits_tryUpdate]

/-- A registry without links takes in a link, if it may hold any. -/
theorem find?_tryUpdate_empty {limits : RegistryLimits} (h : 0 < limits.maxLinks) {link : Link}
    (hkeys : link.checkKeys = .ok ()) (address : Address) :
    ((empty limits).tryUpdate link address).find? link.id =
      some ⟨link, [⟨address, fullTtl⟩]⟩ := by
  have hroom : ¬ limits.maxLinks ≤ (SortedMap.empty : SortedMap LinkId RegistryEntry).size :=
    Nat.not_le_of_lt h
  simp [tryUpdate, update, empty, find?, hkeys, hroom]

end Registry

namespace Roster

theorem eq_empty_of_isEmpty {r : Roster} (h : r.isEmpty = true) : r = .empty r.limit := by
  rw [empty, ← SortedMap.eq_empty_of_isEmpty h]

theorem limit_tryHeartbeat (r : Roster) (address : Address) (h : Heartbeat) :
    (r.tryHeartbeat address h).limit = r.limit := by
  unfold tryHeartbeat heartbeat
  split_ifs <;> rfl

end Roster

namespace Coordinator

/-! ## Runs -/

/-- What happens to a coordinator. Uplinks and ticks come with the part that the device plays
at the time, which need not be the part that the coordinator last took notice of. -/
inductive Event where
  | uplink (role : Role) (source : Address) (now : Instant) (message : Message)
  | coordination (role : Role)
  | fanout (role : Role) (now : Instant)
  | notice (role : Role)

/-- The coordinator after an event. It works only while the device leads. -/
def step (c : Coordinator) : Event → Coordinator
  | .uplink role source now message => if role = .leader then c.ingest source now message else c
  | .coordination role => if role = .leader then c.coordinate.1 else c
  | .fanout role now => if role = .leader then (c.fanout now).1 else c
  | .notice role => c.roleChanged role

/-- The coordinator after a run of events. -/
def run (c : Coordinator) (events : List Event) : Coordinator := events.foldl step c

/-- How much a coordinator may hold, and how it cuts assignments. -/
def bounds (c : Coordinator) : RegistryLimits × Nat × Nat :=
  (c.registry.limits, c.roster.limit, c.chunk)

theorem bounds_ingest (c : Coordinator) (source : Address) (now : Instant) (m : Message) :
    (c.ingest source now m).bounds = c.bounds := by
  cases m with
  | advert links => simp only [ingest, bounds, Registry.limits_foldl_tryUpdate]
  | heartbeat h => simp only [ingest, bounds, Roster.limit_tryHeartbeat]
  | data records => rfl
  | bind first bindings => rfl

theorem bounds_roleChanged (c : Coordinator) (role : Role) :
    (c.roleChanged role).bounds = c.bounds := by
  unfold roleChanged
  split_ifs <;> rfl

theorem bounds_step (c : Coordinator) (e : Event) : (c.step e).bounds = c.bounds := by
  cases e with
  | uplink role source now m =>
    simp only [step]
    split_ifs
    · exact c.bounds_ingest source now m
    · rfl
  | coordination role =>
    simp only [step]
    split_ifs <;> rfl
  | fanout role now =>
    simp only [step]
    split_ifs <;> rfl
  | notice role => exact c.bounds_roleChanged role

theorem bounds_run (c : Coordinator) (events : List Event) : (c.run events).bounds = c.bounds :=
  List.foldlRecOn (motive := (bounds · = c.bounds)) events step rfl
    fun d hd e _ => (d.bounds_step e).trans hd

/-! ## Where values come from -/

/-- An event brings a sample of a key to a coordinator. -/
def Event.Brings (e : Event) (key : Key) (s : Sample) : Prop :=
  ∃ source records, e = .uplink .leader source s.time (.data records) ∧ ⟨key, s.value⟩ ∈ records

theorem mem_buffer_foldl_ingest {records : List Datum} {a : Aggregator} {now : Instant} {key : Key}
    {s : Sample}
    (h : s ∈ (records.foldl (fun a d => a.ingest d.key d.value now) a).buffer key) :
    s ∈ a.buffer key ∨ s.time = now ∧ ⟨key, s.value⟩ ∈ records := by
  induction records generalizing a with
  | nil => exact .inl h
  | cons d records ih =>
    rcases ih h with h | ⟨htime, hmem⟩
    · refine (Aggregator.mem_buffer_ingest h).imp_right ?_
      rintro ⟨rfl, rfl⟩
      exact ⟨rfl, List.mem_cons_self⟩
    · exact .inr ⟨htime, List.mem_cons_of_mem d hmem⟩

theorem mem_buffer_step {c : Coordinator} {e : Event} {key : Key} {s : Sample}
    (h : s ∈ (c.step e).aggregator.buffer key) : s ∈ c.aggregator.buffer key ∨ e.Brings key s := by
  cases e with
  | uplink role source now m =>
    simp only [step] at h
    split_ifs at h with hrole
    · cases m with
      | advert links => exact .inl h
      | heartbeat hb => exact .inl h
      | bind first bindings => exact .inl h
      | data records =>
        refine (mem_buffer_foldl_ingest h).imp_right ?_
        rintro ⟨rfl, hmem⟩
        exact ⟨source, records, by rw [hrole], hmem⟩
    · exact .inl h
  | coordination role =>
    simp only [step] at h
    split_ifs at h <;> exact .inl h
  | fanout role now =>
    simp only [step] at h
    split_ifs at h
    · rw [Coordinator.fanout, Aggregator.buffer_fanout] at h
      exact .inl (List.mem_of_mem_filter h)
    · exact .inl h
  | notice role =>
    simp only [step, roleChanged] at h
    split_ifs at h
    · exact .inl h
    · exact .inl h
    · exact nomatch h

/-- Every value held was held before or was brought by an uplink. -/
theorem mem_buffer_run {c : Coordinator} {events : List Event} {key : Key} {s : Sample}
    (h : s ∈ (c.run events).aggregator.buffer key) :
    s ∈ c.aggregator.buffer key ∨ ∃ e ∈ events, e.Brings key s := by
  induction events generalizing c with
  | nil => exact .inl h
  | cons e events ih =>
    rcases ih h with h | ⟨e', hmem, hbrings⟩
    · exact (mem_buffer_step h).imp_right fun hbrings => ⟨e, List.mem_cons_self, hbrings⟩
    · exact .inr ⟨e', List.mem_cons_of_mem e hmem, hbrings⟩

/-- A sample is among those that some fanout is made of. -/
def Contributes (c : Coordinator) (now : Instant) (key : Key) (s : Sample) : Prop :=
  ∃ f e, f ∈ (c.aggregator.fanout c.registry now).2 ∧ c.registry.find? f.link = some e ∧
    e.link.sourceKey = key ∧ s ∈ c.aggregator.unread f.link e.link ∧
    some f.value = Reduction.reduce e.link.aggregation
      ((c.aggregator.unread f.link e.link).map (·.value))

theorem Contributes.mem_buffer {c : Coordinator} {now : Instant} {key : Key} {s : Sample}
    (h : c.Contributes now key s) : s ∈ c.aggregator.buffer key := by
  obtain ⟨f, e, _, _, rfl, hunread, _⟩ := h
  exact (Aggregator.mem_unread.mp hunread).1

/-! ## The end of a term -/

/-- A coordinator is idle if it knows neither links nor followers. -/
def isIdle (c : Coordinator) : Bool := c.registry.isEmpty && c.roster.isEmpty

theorem roleChanged_of_isIdle {c : Coordinator} (h : c.isIdle = true) (role : Role) :
    c.roleChanged role = c := by
  unfold roleChanged
  rw [isIdle] at h
  split_ifs <;> rfl

theorem roleChanged_of_not_isIdle {c : Coordinator} (h : c.isIdle = false) {role : Role}
    (hrole : role ≠ .leader) :
    c.roleChanged role = .empty c.registry.limits c.roster.limit c.chunk := by
  rw [isIdle] at h
  rw [roleChanged, if_neg hrole, h]
  rfl

/-- The run by which a later term comes to read a sample: the device leads again, values are
sent on once while there are no links, and a node advertises one. It brings no values. -/
def revival (key : Key) (s : Sample) : List Event :=
  [.notice .leader, .fanout .leader s.time,
    .uplink .leader .loopback s.time (.advert [Link.new .recv key key])]

theorem not_brings_of_mem_revival {key key' : Key} {s s' : Sample} {e : Event}
    (he : e ∈ revival key s) : ¬ e.Brings key' s' := by
  rintro ⟨source, records, rfl, _⟩
  simp [revival] at he

/-- A link of a later term reads a sample that an idle coordinator holds. -/
theorem contributes_after_revival {c : Coordinator} (hidle : c.isIdle = true)
    (hroom : 0 < c.registry.limits.maxLinks) {key : Key} {s : Sample}
    (hs : s ∈ c.aggregator.buffer key) : (c.run (revival key s)).Contributes s.time key s := by
  let d := c.run (revival key s)
  let link := Link.new .recv key key
  have hempty : c.registry = .empty c.registry.limits :=
    Registry.eq_empty_of_isEmpty (Bool.and_eq_true_iff.mp hidle).1
  have haggregator : d.aggregator = (c.aggregator.fanout c.registry s.time).1 := rfl
  have hlisted : d.registry.find? link.id = some ⟨link, [⟨.loopback, Registry.fullTtl⟩]⟩ := by
    have hregistry : d.registry = c.registry.tryUpdate link .loopback := rfl
    rw [hregistry, hempty]
    exact Registry.find?_tryUpdate_empty hroom rfl .loopback
  have hheld : s ∈ d.aggregator.buffer key := by
    rw [haggregator, Aggregator.buffer_fanout, List.mem_filter]
    refine ⟨hs, decide_eq_true ?_⟩
    rw [Instant.since, Nat.sub_self]
    exact Nat.zero_le _
  -- The fanout without links forgot when the links of the ended term were last read.
  have hnever : d.aggregator.lastFanout.find? link.id = none := by
    rw [haggregator, Aggregator.find?_lastFanout_fanout, hempty, if_neg]
    exact Bool.false_ne_true
  have hunread : s ∈ d.aggregator.unread link.id link :=
    Aggregator.mem_unread.mpr ⟨hheld, fun t ht => by rw [hnever] at ht; cases ht⟩
  have hdue : Aggregator.isDue link (d.aggregator.lastFanout.find? link.id) s.time = true := by
    rw [hnever]
    rfl
  obtain ⟨f, hf, hlink⟩ := Aggregator.exists_mem_fanout hlisted nofun hdue hunread
  rw [← hlink] at hlisted hunread
  exact ⟨f, _, hf, hlisted, rfl, hunread, (Aggregator.value_of_mem_fanout hf hlisted).1⟩

/-- When a coordinator takes notice that its device leads no more, it always ends without
links and followers. If it knew any, it is as new, and what contributes to a later fanout
was brought later. If it knew none it stays as it is, values and times included, and each
value it holds can contribute to a fanout of a later term to which no values were brought. -/
theorem ended_term_forgotten_unless_idle (limits : RegistryLimits) (maxFollowers chunk : Nat)
    (events : List Event) (role : Role) (hrole : role ≠ .leader) :
    let c := (empty limits maxFollowers chunk).run events
    let after := c.roleChanged role
    after.registry = .empty limits ∧ after.roster = .empty maxFollowers ∧
    (after.aggregator = .empty ↔ c.isIdle = false ∨ c.aggregator = .empty) ∧
    (c.isIdle = false →
      after = .empty limits maxFollowers chunk ∧
      ∀ later now key s, (after.run later).Contributes now key s → ∃ e ∈ later, e.Brings key s) ∧
    (c.isIdle = true →
      after = c ∧
      (0 < limits.maxLinks → ∀ key, ∀ s ∈ c.aggregator.buffer key,
        ∃ later now, (after.run later).Contributes now key s ∧
          ∀ e ∈ later, ∀ key' s', ¬ e.Brings key' s')) := by
  intro c after
  have hbounds : c.bounds = (limits, maxFollowers, chunk) := bounds_run _ events
  simp only [bounds, Prod.mk.injEq] at hbounds
  obtain ⟨hlimits, hlimit, hchunk⟩ := hbounds
  cases hidle : c.isIdle with
  | false =>
    have hfresh : after = .empty limits maxFollowers chunk := by
      rw [← hlimits, ← hlimit, ← hchunk]
      exact roleChanged_of_not_isIdle hidle hrole
    rw [hfresh]
    refine ⟨rfl, rfl, iff_of_true rfl (.inl rfl), fun _ => ⟨rfl, ?_⟩, nofun⟩
    intro later now key s hs
    exact (mem_buffer_run hs.mem_buffer).resolve_left nofun
  | true =>
    have hkept : after = c := roleChanged_of_isIdle hidle role
    obtain ⟨hregistry, hroster⟩ := Bool.and_eq_true_iff.mp hidle
    rw [hkept]
    refine ⟨hlimits ▸ Registry.eq_empty_of_isEmpty hregistry,
      hlimit ▸ Roster.eq_empty_of_isEmpty hroster, by simp, nofun, fun _ => ⟨rfl, ?_⟩⟩
    intro hroom key s hs
    exact ⟨revival key s, s.time, contributes_after_revival hidle (hlimits ▸ hroom) hs,
      fun e he _ _ => not_brings_of_mem_revival he⟩

/-- A term with a link ends. The value of the term is forgotten, and only a value of the next
term can contribute to a fanout of the next term. -/
theorem busy_term_forgotten :
    let link := Link.new .recv 16 32
    let c := (empty {} 256 147).run [.uplink .leader (.v4 1) 0 (.advert [link]),
      .uplink .leader (.v4 2) 0 (.data [⟨16, .ofWord32 42⟩])]
    c.isIdle = false ∧ c.aggregator.buffer 16 = [⟨.ofWord32 42, 0⟩] ∧
    c.roleChanged .candidate = .empty {} 256 147 ∧
    ∀ later now s, ((c.roleChanged .candidate).run later).Contributes now 16 s →
      ∃ e ∈ later, e.Brings 16 s := by
  intro link c
  have hbusy : c.isIdle = false := by decide +kernel
  obtain ⟨-, -, -, hforgets, -⟩ := ended_term_forgotten_unless_idle {} 256 147
    [.uplink .leader (.v4 1) 0 (.advert [link]),
      .uplink .leader (.v4 2) 0 (.data [⟨16, .ofWord32 42⟩])] .candidate nofun
  obtain ⟨hfresh, hlater⟩ := hforgets hbusy
  exact ⟨hbusy, by decide +kernel, hfresh, fun later now s => hlater later now 16 s⟩

/-- A term without links and followers ends. A minute later the device leads again, a node
advertises a link and is sent the value of the ended term. -/
theorem value_of_ended_term_sent_on :
    let ended := (empty {} 256 147).run [.uplink .leader (.v4 2) 0 (.data [⟨16, .ofWord32 42⟩]),
      .notice (.follower 5 (.v4 2))]
    let next := ended.run [.notice .leader,
      .uplink .leader (.v4 1) 60000000 (.advert [Link.new .recv 16 32]),
      .uplink .leader (.v4 1) 60000000 (.heartbeat ⟨0, []⟩)]
    ended.aggregator.buffer 16 = [⟨.ofWord32 42, 0⟩] ∧
    (next.fanout 60000000).2 = [⟨.v4 1, .data [⟨32, .ofWord32 42⟩]⟩] := by
  decide +kernel

end Coordinator

end LinkFabric
