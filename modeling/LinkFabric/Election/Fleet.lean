import LinkFabric.Election.Agent

/-!
# A fleet on one segment

Several agents share a segment that loses nothing: what one broadcasts, all others
that are up receive at once, in the order of the fleet. Devices can join, and a set of
them can be down, in which case they neither send, receive nor tick.
-/

namespace LinkFabric

/-- A device of a fleet. -/
structure Member where
  address : Address
  agent : Agent

/-- Devices on one segment, in the order in which they act, and the places of those that are
down. -/
structure Fleet where
  members : List Member
  down : List Nat
  now : Instant

/-- What can happen to a fleet. In a round time passes, then all that campaign or lead send
beacons, and all tick. -/
inductive FleetEvent where
  | round (step : Span)
  | drop (place : Nat)
  | join (address : Address) (config : ElectionConfig)
  | setDown (places : List Nat)

namespace Fleet

/-- A fleet of new devices at time zero. -/
def start (devices : List (Address × ElectionConfig)) : Fleet :=
  ⟨devices.map fun d => ⟨d.1, .start d.2 0⟩, [], 0⟩

/-- Whether the device at a place is up. -/
def isUp (f : Fleet) (place : Nat) : Bool := !f.down.contains place

/-- Hands a beacon to a device, and returns the device and its answer. -/
def hear (f : Fleet) (sender : Nat) (source : Address) (b : Beacon) (place : Nat) (m : Member) :
    Member × Option Beacon :=
  if place = sender ∨ !f.isUp place then (m, none)
  else
    let (agent, reply) := m.agent.receive source b f.now
    ({ m with agent }, reply)

/-- Hands a beacon to all but its sender. Returns the answers with the places they come
from. -/
def deliver (f : Fleet) (sender : Nat) (b : Beacon) : Fleet × List (Nat × Beacon) :=
  match f.members[sender]? with
  | none => (f, [])
  | some source =>
    let heard := f.members.zipIdx.map fun p => f.hear sender source.address b p.2 p.1
    let replies := heard.zipIdx.filterMap fun p => p.1.2.map (p.2, ·)
    ({ f with members := heard.map (·.1) }, replies)

/-- Broadcasts a beacon and the answers to it. An answer always takes its sender out of the
election, and nobody answers such a beacon, so the exchange ends there. -/
def broadcast (f : Fleet) (sender : Nat) (b : Beacon) : Fleet :=
  let (f, replies) := f.deliver sender b
  replies.foldl (fun f r => (f.deliver r.1 r.2).1) f

/-- Lets the device at a place send its beacon, if it is up and campaigns or leads. -/
def announce (f : Fleet) (place : Nat) : Fleet :=
  match f.members[place]? with
  | none => f
  | some m =>
    if f.isUp place && (m.agent.isCampaigning || m.agent.isLeader) then
      f.broadcast place (m.agent.beacon false f.now)
    else f

/-- Lets all devices that are up tick. -/
def tick (f : Fleet) : Fleet :=
  { f with
    members := f.members.zipIdx.map fun p =>
      if f.isUp p.2 then { p.1 with agent := p.1.agent.tick f.now } else p.1 }

/-- One round after a step of time. -/
def round (f : Fleet) (step : Span) : Fleet :=
  let f := { f with now := f.now + step }
  ((List.range f.members.length).foldl announce f).tick

/-- Takes the device at a place out of the election, up or not. -/
def drop (f : Fleet) (place : Nat) : Fleet :=
  match f.members[place]? with
  | none => f
  | some m => f.broadcast place (m.agent.beacon true f.now)

/-- What becomes of a fleet. -/
def step (f : Fleet) : FleetEvent → Fleet
  | .round span => f.round span
  | .drop place => f.drop place
  | .join address config => { f with members := f.members ++ [⟨address, .start config f.now⟩] }
  | .setDown places => { f with down := places }

end Fleet

/-- Nobody answers a beacon that takes its sender out of the election. -/
theorem Agent.receive_drop (a : Agent) (source : Address) (b : Beacon) (now : Instant)
    (h : b.isDrop = true) : (a.receive source b now).2 = none := by
  simp only [receive, h]
  split <;> rfl

/-- An answer takes its sender out of the election. -/
theorem Agent.isDrop_of_receive {a : Agent} {source : Address} {b reply : Beacon} {now : Instant}
    (h : (a.receive source b now).2 = some reply) : reply.isDrop = true := by
  simp only [receive] at h
  split at h
  · simp at h
  · split at h
    · simp at h
    · split at h
      · simp at h
      · simp only [respond] at h
        split at h
        · split at h <;> simp at h
        · split at h
          · simp only [Option.some.injEq] at h
            subst h
            simp [beacon]
          · simp at h
        · simp at h

end LinkFabric
