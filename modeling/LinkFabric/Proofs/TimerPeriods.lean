import LinkFabric.Node.Basic
import LinkFabric.Proofs.Quantities

/-!
# Timers without a period

Three variables give the periods of the timers that drive advertising and coordination. None of
them refuses a zero, and a part of a node whose timer has no period is stopped from the start. Such
a node goes on with the rest. What its stopped part knows never changes, whatever happens to the
node, and the part is not heard of: a node that does not advertise sends its leader nothing but
values, and one that does not coordinate sends nothing to followers.

Main results:

* `Quantity.value_eq_zero_iff`: a number among the settings is zero iff its variable says so.
* `Node.Confined.handle`, `Node.confined_handleAll`: what an event and a run of events leave of
  stopped parts.
* `Node.zero_periods_stop_parts`: which settings stop which part of a node, and what follows.
-/

namespace LinkFabric

/-! ## Zeros among the settings -/

namespace Quantity

/-- A variable is set to zero. -/
def WritesZero (vars : Variables) (q : Quantity) : Prop :=
  ∃ text, vars q.name = some text ∧ Denotes text 0

variable {fallback : DeviceId} {vars : Variables} {s : Settings}

/-- No default is zero, so a zero comes from a variable. -/
theorem value_eq_zero_iff (q : Quantity) (h : Settings.ofVariables fallback vars = .ok s) :
    q.value s = 0 ↔ WritesZero vars q := by
  have hsays := (q.says_of_ofVariables h).1
  constructor
  · intro hzero
    rw [hzero] at hsays
    rcases hsays with ⟨-, habsent⟩ | hwritten
    · exact absurd habsent q.absent_pos.ne
    · exact hwritten
  · rintro ⟨text, htext, hdenotes⟩
    rcases hsays with ⟨hunset, -⟩ | ⟨text', htext', hdenotes'⟩
    · cases hunset.symm.trans htext
    · obtain rfl := Option.some.inj (htext.symm.trans htext')
      exact hdenotes'.unique hdenotes

/-- A period is zero iff its variable says so. -/
theorem span_eq_zero_iff (q : Quantity) (span : Settings → Span)
    (hspan : ∀ n s, span (q.put n s) = Span.ofMs n)
    (h : Settings.ofVariables fallback vars = .ok s) : span s = 0 ↔ WritesZero vars q := by
  have hvalue : span s = Span.ofMs (q.value s) := by
    rw [← hspan (q.value s) s, (q.says_of_ofVariables h).2.2]
  rw [hvalue, Span.ofMs, Nat.mul_eq_zero, ← q.value_eq_zero_iff h]
  simp

end Quantity

namespace Settings

theorem advertises_eq_false_iff (s : Settings) :
    s.advertises = false ↔ s.advertInterval = 0 ∨ s.heartbeatInterval = 0 := by
  simp only [advertises, decide_eq_false_iff_not, Nat.pos_iff_ne_zero,
    Decidable.not_and_iff_not_or_not, Decidable.not_not]

theorem coordinates_eq_false_iff (s : Settings) :
    s.coordinates = false ↔ s.coordinationInterval = 0 := by
  simp only [coordinates, decide_eq_false_iff_not, Nat.pos_iff_ne_zero, Decidable.not_not]

end Settings

namespace Node

/-! ## Events -/

/-- What can happen to a node. -/
inductive Event where
  | run (now : Instant)
  | receive (now : Instant) (port : Port) (source : Address) (bytes : Bytes)
  | carry
  | declare (link : Link)
  | withdraw (id : LinkId)
  | define (key : Key) (value : Value)

/-- The node after an event. A request that is refused changes nothing. -/
def handle (n : Node) : Event → Node
  | .run now => n.run now
  | .receive now port source bytes => n.receive now port source bytes
  | .carry => { n with outbox := [] }
  | .declare link =>
    match n.declare link with
    | .ok (n', _) => n'
    | .error _ => n
  | .withdraw id =>
    match n.withdraw id with
    | .ok (n', _) => n'
    | .error _ => n
  | .define key value => n.define key value

/-- The node after events. -/
def handleAll (n : Node) (events : List Event) : Node := events.foldl handle n

/-! ## Stopped parts -/

/-- Whether a node with some settings speaks to a port in some words. Only a node that advertises
tells its leader of links and of itself, and only one that coordinates speaks to followers. -/
def Speaks (s : Settings) (m : Message) : Port → Prop
  | .election => False
  | .link => s.coordinates = true
  | .manager => s.advertises = true ∨ ∃ records, m = .data records

/-- A datagram is a beacon, or carries what the node may say. -/
def Permitted (s : Settings) (o : Outgoing) : Prop :=
  o.port = .election ∨
    ∃ m datagrams, Speaks s m o.port ∧ m.encode s.station = .ok datagrams ∧ o.bytes ∈ datagrams

/-- The stopped parts of a node are as they were at the start, and are silent. -/
structure Confined (s : Settings) (d : Declarations) (n : Node) : Prop where
  settings : n.settings = s
  declarations : s.advertises = false → n.declarations = d
  coordinator : s.coordinates = false →
    n.coordinator = .empty s.limits s.maxFollowers s.bindChunk
  outbox : ∀ o ∈ n.outbox, Permitted s o

namespace Confined

variable {s : Settings} {d : Declarations} {n n' : Node}

/-- The rest of a node has no bearing. -/
theorem of_eq (h : Confined s d n) (hsettings : n'.settings = n.settings)
    (hdeclarations : n'.declarations = n.declarations)
    (hcoordinator : n'.coordinator = n.coordinator) (houtbox : n'.outbox = n.outbox) :
    Confined s d n' where
  settings := hsettings.trans h.settings
  declarations hstopped := hdeclarations.trans (h.declarations hstopped)
  coordinator hstopped := hcoordinator.trans (h.coordinator hstopped)
  outbox := houtbox ▸ h.outbox

/-- A node that advertises may declare anything. -/
theorem declaring (h : Confined s d n) (hadvertises : s.advertises = true)
    (declarations : Declarations) : Confined s d { n with declarations } := by
  refine ⟨h.settings, fun hstopped => ?_, h.coordinator, h.outbox⟩
  cases hstopped.symm.trans hadvertises

/-- A node that coordinates may know anything. -/
theorem knowing (h : Confined s d n) (hcoordinates : s.coordinates = true)
    (coordinator : Coordinator) : Confined s d { n with coordinator } := by
  refine ⟨h.settings, h.declarations, fun hstopped => ?_, h.outbox⟩
  cases hstopped.symm.trans hcoordinates

/-- A fold keeps what its steps keep. -/
theorem foldl {α : Type} {f : Node → α → Node} {l : List α}
    (hf : ∀ n, Confined s d n → ∀ a ∈ l, Confined s d (f n a)) (h : Confined s d n) :
    Confined s d (l.foldl f n) :=
  List.foldlRecOn l f h hf

theorem post (h : Confined s d n) {address : Address} {port : Port} {bytes : Bytes}
    (hpermitted : Permitted s ⟨address, port, bytes⟩) :
    Confined s d (n.post address port bytes) where
  settings := h.settings
  declarations := h.declarations
  coordinator := h.coordinator
  outbox o ho := by
    rcases List.mem_append.mp ho with hold | hnew
    · exact h.outbox o hold
    · rwa [List.mem_singleton.mp hnew]

theorem postBeacon (h : Confined s d n) (b : Beacon) : Confined s d (n.postBeacon b) :=
  h.post (.inl rfl)

theorem postMessage (h : Confined s d n) (address : Address) {port : Port} {m : Message}
    (hspeaks : Speaks s m port) : Confined s d (n.postMessage address port m) := by
  rw [Node.postMessage, h.settings]
  cases hencode : m.encode s.station with
  | error cause => exact h
  | ok datagrams =>
    refine foldl (fun n h bytes hbytes => ?_) h
    exact h.post (.inr ⟨m, datagrams, hspeaks, hencode, hbytes⟩)

theorem handOver (h : Confined s d n) (source : Address) (now : Instant) (m : Message) :
    Confined s d (n.handOver source now m) := by
  rw [Node.handOver]
  split
  · rename_i hcoordinates
    exact h.knowing (h.settings ▸ hcoordinates) _
  · exact h

theorem uplink (h : Confined s d n) (now : Instant) {m : Message}
    (hspeaks : Speaks s m .manager) : Confined s d (n.uplink now m).1 := by
  rw [Node.uplink]
  split
  · exact h.handOver _ now m
  · exact h.postMessage _ hspeaks
  · exact h

theorem downlink (h : Confined s d n) (now : Instant) (deliveries : List Delivery)
    (hcoordinates : s.coordinates = true) : Confined s d (n.downlink now deliveries) := by
  refine foldl (fun n h delivery _ => ?_) (h.of_eq rfl rfl rfl rfl)
  exact h.postMessage delivery.address hcoordinates

theorem advertise (h : Confined s d n) (now : Instant) : Confined s d (n.advertise now) := by
  rw [Node.advertise]
  split
  · exact h
  · rename_i hactive
    have hadvertises : s.advertises = true := by
      rw [h.settings] at hactive
      exact Decidable.byContradiction fun hstopped => hactive (by simp [hstopped])
    have hsent := h.uplink (m := .advert n.declarations.links) now (.inl hadvertises)
    dsimp only
    split
    · exact hsent.declaring hadvertises _
    · exact hsent

theorem sendHeartbeat (h : Confined s d n) (now : Instant) :
    Confined s d (n.sendHeartbeat now) := by
  rw [Node.sendHeartbeat, h.settings]
  split
  · rename_i hadvertises
    exact h.uplink now (.inl hadvertises)
  · exact h

theorem takeRole (h : Confined s d n) (now : Instant) (role : Role) :
    Confined s d (n.takeRole now role) := by
  rw [Node.takeRole]
  split
  · exact h
  · -- A part that knows nothing has nothing to forget.
    have hidle : Confined s d { n with role, coordinator := n.coordinator.roleChanged role } := by
      refine ⟨h.settings, h.declarations, fun hstopped => ?_, h.outbox⟩
      show n.coordinator.roleChanged role = _
      rw [h.coordinator hstopped, Coordinator.roleChanged]
      split
      · rfl
      · rfl
    split
    · exact hidle
    · exact (hidle.sendHeartbeat now).advertise now

theorem hearBeacon (h : Confined s d n) (now : Instant) (source : Address) (bytes : Bytes) :
    Confined s d (n.hearBeacon now source bytes) := by
  rw [Node.hearBeacon]
  split
  · exact h.of_eq rfl rfl rfl rfl
  · split
    · exact h
    · refine takeRole ?_ now _
      split
      · refine postBeacon ?_ _
        exact h.of_eq rfl rfl rfl rfl
      · exact h.of_eq rfl rfl rfl rfl

theorem begin (h : Confined s d n) (now : Instant) (left : Nat) (next : Instant) :
    Confined s d (n.begin now left next) := by
  induction left generalizing n next with
  | zero =>
    rw [Node.begin]
    split
    · exact h.of_eq rfl rfl rfl rfl
    · exact foldl (fun n h p _ => h.hearBeacon now p.1 p.2) (h.of_eq rfl rfl rfl rfl)
  | succ left ih =>
    rw [Node.begin]
    split
    · exact h.of_eq rfl rfl rfl rfl
    · refine ih (postBeacon ?_ _) _
      exact h.of_eq rfl rfl rfl rfl

theorem sendBeacon (h : Confined s d n) (now : Instant) (agent : Agent) (rounds : Nat) :
    Confined s d (n.sendBeacon now agent rounds) := by
  rw [Node.sendBeacon]
  split
  · exact (h.postBeacon _).of_eq rfl rfl rfl rfl
  · split
    · split
      · have hdrawn : Confined s d n.draw.2 := h.of_eq rfl rfl rfl rfl
        exact (hdrawn.postBeacon _).of_eq rfl rfl rfl rfl
      · exact h.of_eq rfl rfl rfl rfl
    · exact h.of_eq rfl rfl rfl rfl

theorem runElection (h : Confined s d n) (now : Instant) : Confined s d (n.runElection now) := by
  unfold Node.runElection
  extract_lets begun
  have hbegun : Confined s d begun := by
    unfold begun
    split
    · exact h.begin now _ _
    · exact h
  split
  · exact hbegun
  · rename_i agent rounds next _
    extract_lets ticked told
    have htold : Confined s d told := hbegun.of_eq rfl rfl rfl rfl
    have hrole := htold.takeRole now ticked.role
    split
    · exact hrole.sendBeacon now ticked rounds
    · exact hrole

theorem receive (h : Confined s d n) (now : Instant) (port : Port) (source : Address)
    (bytes : Bytes) : Confined s d (n.receive now port source bytes) := by
  cases port with
  | election => exact h.hearBeacon now source _
  | link => exact h.of_eq rfl rfl rfl rfl
  | manager =>
    simp only [Node.receive]
    split
    · split
      · exact h.handOver source now _
      · exact h
    · exact h

theorem runBinder (h : Confined s d n) (now : Instant) : Confined s d (n.runBinder now) := by
  have hticked : Confined s d { n with binder := (n.binder.tick now).1 } := h.of_eq rfl rfl rfl rfl
  simp only [Node.runBinder]
  split
  · exact hticked
  · exact hticked.uplink now (.inr ⟨_, rfl⟩)

/-- What a coordinator does is done only if the node coordinates. -/
theorem coordinated (h : Confined s d n) (now : Instant) (work : Coordinator × List Delivery) :
    Confined s d (if n.isLeading && n.settings.coordinates then
      { n with coordinator := work.1 }.downlink now work.2 else n) := by
  split
  · rename_i hactive
    have hcoordinates : s.coordinates = true := by
      rw [← h.settings]
      exact (Bool.and_eq_true_iff.mp hactive).2
    exact (h.knowing hcoordinates work.1).downlink now work.2 hcoordinates
  · exact h

theorem runCoordination (h : Confined s d n) (now : Instant) :
    Confined s d (n.runCoordination now) :=
  h.coordinated now n.coordinator.coordinate

theorem runFanout (h : Confined s d n) (now : Instant) : Confined s d (n.runFanout now) :=
  h.coordinated now (n.coordinator.fanout now)

theorem run (h : Confined s d n) (now : Instant) : Confined s d (n.run now) := by
  have hperform : ∀ {n : Node} (period : Span) {act : Node → Instant → Node}, Confined s d n →
      (∀ n, Confined s d n → Confined s d (act n now)) →
      Confined s d (if isDue period 0 now then act n now else n) := by
    intro n period act h hact
    split
    · exact hact n h
    · exact h
  have helection := h.runElection now
  have hadvert := hperform n.settings.advertInterval helection fun _ h => h.advertise now
  have hheartbeat := hperform n.settings.heartbeatInterval hadvert fun _ h => h.sendHeartbeat now
  have hcycle :=
    hperform n.settings.coordinationInterval hheartbeat fun _ h => h.runCoordination now
  have hfanout := hperform valueTick hcycle fun _ h => h.runFanout now
  exact hperform valueTick hfanout fun _ h => h.runBinder now

theorem of_declare (h : Confined s d n) {link : Link} {id : LinkId}
    (hdeclared : n.declare link = .ok (n', id)) : Confined s d n' := by
  rw [Node.declare] at hdeclared
  split at hdeclared
  · rename_i hadvertises
    split at hdeclared
    · cases hdeclared
      exact h.declaring (h.settings ▸ hadvertises) _
    · cases hdeclared
  · cases hdeclared

theorem of_withdraw (h : Confined s d n) {id : LinkId} {found : Bool}
    (hwithdrawn : n.withdraw id = .ok (n', found)) : Confined s d n' := by
  rw [Node.withdraw] at hwithdrawn
  split at hwithdrawn
  · rename_i hadvertises
    cases hwithdrawn
    exact h.declaring (h.settings ▸ hadvertises) _
  · cases hwithdrawn

/-- An event leaves stopped parts as they are. -/
theorem handle (h : Confined s d n) (e : Event) : Confined s d (n.handle e) := by
  cases e with
  | run now => exact h.run now
  | receive now port source bytes => exact h.receive now port source bytes
  | carry =>
    refine ⟨h.settings, h.declarations, h.coordinator, fun o ho => ?_⟩
    cases ho
  | declare link =>
    simp only [Node.handle]
    split
    · rename_i n' id hdeclared
      exact h.of_declare hdeclared
    · exact h
  | withdraw id =>
    simp only [Node.handle]
    split
    · rename_i n' found hwithdrawn
      exact h.of_withdraw hwithdrawn
    · exact h
  | define key value => exact h.of_eq rfl rfl rfl rfl

end Confined

theorem confined_handleAll (s : Settings) (store : KeyStore) (words : Nat → UInt16)
    (events : List Event) :
    Confined s (start s store words).declarations ((start s store words).handleAll events) := by
  refine Confined.foldl (fun n h e _ => h.handle e) ?_
  refine ⟨rfl, fun _ => rfl, fun _ => rfl, fun o ho => ?_⟩
  cases ho

/-! ## Nodes with stopped parts -/

open Quantity (WritesZero)

/-- The part of a node that advertises is stopped: it gives no answers, keeps what was declared
at the start, and leaves a leader nothing but values. -/
structure AdvertisingStopped (d : Declarations) (n : Node) : Prop where
  declared : n.declared = .error .stopped
  declare : ∀ link, n.declare link = .error .stopped
  withdraw : ∀ id, n.withdraw id = .error .stopped
  declarations : n.declarations = d
  silent : ∀ o ∈ n.outbox, o.port = .manager → ∃ records datagrams,
    (Message.data records).encode n.settings.station = .ok datagrams ∧ o.bytes ∈ datagrams

/-- The part of a node that coordinates is stopped: it gives no answers, knows nothing, and
leaves followers without messages. -/
structure CoordinationStopped (n : Node) : Prop where
  knowledge : n.knowledge = .error .stopped
  coordinator : n.coordinator =
    .empty n.settings.limits n.settings.maxFollowers n.settings.bindChunk
  silent : ∀ o ∈ n.outbox, o.port ≠ .link

theorem Confined.advertisingStopped {s : Settings} {d : Declarations} {n : Node}
    (h : Confined s d n) (hstopped : s.advertises = false) : AdvertisingStopped d n := by
  have hrefused : n.settings.advertises = false := h.settings ▸ hstopped
  refine ⟨?_, fun link => ?_, fun id => ?_, h.declarations hstopped, fun o ho hport => ?_⟩
  · simp [Node.declared, hrefused]
  · simp [Node.declare, hrefused]
  · simp [Node.withdraw, hrefused]
  · rcases h.outbox o ho with hbeacon | ⟨m, datagrams, hspeaks, hencode, hbytes⟩
    · cases hport.symm.trans hbeacon
    · rw [hport] at hspeaks
      rcases hspeaks with hadvertises | ⟨records, rfl⟩
      · cases hstopped.symm.trans hadvertises
      · exact ⟨records, datagrams, h.settings ▸ hencode, hbytes⟩

theorem Confined.coordinationStopped {s : Settings} {d : Declarations} {n : Node}
    (h : Confined s d n) (hstopped : s.coordinates = false) : CoordinationStopped n := by
  have hrefused : n.settings.coordinates = false := h.settings ▸ hstopped
  refine ⟨?_, ?_, fun o ho hport => ?_⟩
  · simp [Node.knowledge, hrefused]
  · rw [h.settings]
    exact h.coordinator hstopped
  · rcases h.outbox o ho with hbeacon | ⟨m, datagrams, hspeaks, -, -⟩
    · cases hport.symm.trans hbeacon
    · rw [hport] at hspeaks
      cases hstopped.symm.trans hspeaks

/-- A period among accepted settings is zero iff its variable is set to zero, and each of the
three variables may be. A node that is told so never advertises, or never coordinates: over every
run of events the part is stopped, and a part that was given its periods answers. -/
theorem zero_periods_stop_parts {fallback : DeviceId} {vars : Variables} {s : Settings}
    (h : Settings.ofVariables fallback vars = .ok s) :
    ((s.advertInterval = 0 ↔ WritesZero vars .advertInterval) ∧
      (s.heartbeatInterval = 0 ↔ WritesZero vars .heartbeatInterval) ∧
      (s.coordinationInterval = 0 ↔ WritesZero vars .coordinationInterval)) ∧
    (∀ text, Denotes text 0 →
      Settings.ofVariables fallback
          (Function.update vars "HIVELINK_ADVERT_INTERVAL_MS" (some text)) =
        .ok { s with advertInterval := 0 } ∧
      Settings.ofVariables fallback
          (Function.update vars "HIVELINK_HEARTBEAT_INTERVAL_MS" (some text)) =
        .ok { s with heartbeatInterval := 0 } ∧
      Settings.ofVariables fallback
          (Function.update vars "HIVELINK_COORDINATION_INTERVAL_MS" (some text)) =
        .ok { s with coordinationInterval := 0 }) ∧
    ∀ store words events,
      let first := start s store words
      let n := first.handleAll events
      (WritesZero vars .advertInterval ∨ WritesZero vars .heartbeatInterval →
        AdvertisingStopped first.declarations n) ∧
      (¬ (WritesZero vars .advertInterval ∨ WritesZero vars .heartbeatInterval) →
        n.declared = .ok n.declarations) ∧
      (WritesZero vars .coordinationInterval → CoordinationStopped n) ∧
      (¬ WritesZero vars .coordinationInterval → n.knowledge = .ok n.coordinator) := by
  have hadvert := Quantity.span_eq_zero_iff .advertInterval (·.advertInterval) (fun _ _ => rfl) h
  have hheartbeat :=
    Quantity.span_eq_zero_iff .heartbeatInterval (·.heartbeatInterval) (fun _ _ => rfl) h
  have hcoordination :=
    Quantity.span_eq_zero_iff .coordinationInterval (·.coordinationInterval) (fun _ _ => rfl) h
  refine ⟨⟨hadvert, hheartbeat, hcoordination⟩, fun text htext => ?_, fun store words events => ?_⟩
  · have hset := fun q : Quantity => q.ofVariables_update h htext (by decide)
    exact ⟨hset .advertInterval, hset .heartbeatInterval, hset .coordinationInterval⟩
  · intro first n
    have hconfined : Confined s first.declarations n := confined_handleAll s store words events
    rw [← hadvert, ← hheartbeat, ← hcoordination, ← s.advertises_eq_false_iff,
      ← s.coordinates_eq_false_iff]
    refine ⟨hconfined.advertisingStopped, fun hactive => ?_, hconfined.coordinationStopped,
      fun hactive => ?_⟩
    · rw [declared, hconfined.settings, if_pos (Bool.eq_true_of_not_eq_false hactive)]
    · rw [knowledge, hconfined.settings, if_pos (Bool.eq_true_of_not_eq_false hactive)]

/-- A heartbeat interval of zero, with white space around it, is accepted. A node with it advertises
nothing whatever happens to it, and coordinates. -/
theorem node_without_heartbeats_never_advertises :
    let vars := Function.update (fun _ => none) "HIVELINK_HEARTBEAT_INTERVAL_MS" (some " 00 ")
    let s := { Settings.default 5 with heartbeatInterval := 0 }
    Settings.ofVariables 5 vars = .ok s ∧ WritesZero vars .heartbeatInterval ∧
    ¬ WritesZero vars .coordinationInterval ∧
    ∀ events,
      let n := (start s .empty fun _ => 0).handleAll events
      AdvertisingStopped .empty n ∧ n.knowledge = .ok n.coordinator := by
  intro vars s
  have hs : Settings.ofVariables 5 vars = .ok s := rfl
  obtain ⟨⟨-, hheartbeat, hcoordination⟩, -, hruns⟩ := zero_periods_stop_parts hs
  have hzero : WritesZero vars .heartbeatInterval := hheartbeat.mp rfl
  have hcoordinates : ¬ WritesZero vars .coordinationInterval :=
    mt hcoordination.mpr (by decide)
  refine ⟨hs, hzero, hcoordinates, fun events => ?_⟩
  obtain ⟨hstopped, -, -, hanswers⟩ := hruns .empty (fun _ => 0) events
  exact ⟨hstopped (.inr hzero), hanswers hcoordinates⟩

/-- An advert interval of zero is accepted, and the node is not able to declare a link. -/
theorem zero_advert_interval_accepted :
    let vars := Function.update (fun _ => none) "HIVELINK_ADVERT_INTERVAL_MS" (some "0")
    ∃ s, Settings.ofVariables 5 vars = .ok s ∧ s.advertInterval = 0 ∧
      (start s .empty fun _ => 0).declared = .error .stopped :=
  ⟨{ Settings.default 5 with advertInterval := 0 }, rfl, rfl, rfl⟩

end Node

end LinkFabric
