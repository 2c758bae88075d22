import LinkFabric.Datagram.Message
import LinkFabric.Election.Agent
import LinkFabric.KeyStore
import LinkFabric.Node.BindingTable

/-!
# A node at work

A node holds its bindings and its values. It writes the leader's values to its sinks
and collects the values of its sources. Of what arrives on the network, it listens to
its leader only.
-/

namespace LinkFabric

/-- The bindings and the values of a node. -/
structure Binder where
  table : BindingTable
  store : KeyStore

namespace Binder

/-- Writes a value, if its key is a sink that takes it. -/
def writeSink (b : Binder) (d : Datum) : Binder :=
  if b.table.isSink d.key then { b with store := b.store.trySet d.key d.value } else b

/-- Writes values one after another. -/
def writeSinks (b : Binder) (records : List Datum) : Binder := records.foldl writeSink b

/-- Takes in a message of the leader. Links and heartbeats are for the leader only. -/
def apply (b : Binder) (now : Instant) : Message → Binder
  | .bind first bindings => { b with table := b.table.apply first bindings now }
  | .data records => b.writeSinks records
  | .advert _ => b
  | .heartbeat _ => b

/-- Takes in a datagram, if it is from the leader that the node follows. -/
def receive (b : Binder) (station : Station) (role : Role) (source : Address) (bytes : Bytes)
    (now : Instant) : Binder :=
  match role with
  | .follower _ leader =>
    if source ≠ leader then b
    else
      match Message.decode station bytes with
      | .ok (_, message) => b.apply now message
      | .error _ => b
  | .candidate => b
  | .leader => b

/-- A message of the leader is taken in. -/
theorem receive_of_decode {station : Station} {source : Address} {bytes : Bytes} {header : Header}
    {m : Message} (h : Message.decode station bytes = .ok (header, m)) (b : Binder)
    (leader : DeviceId) (now : Instant) :
    b.receive station (.follower leader source) source bytes now = b.apply now m := by
  simp [receive, h]

/-- Drops the bindings of a silent leader and collects the values that are due. -/
def tick (b : Binder) (now : Instant) : Binder × List Datum :=
  let (table, due) := (b.table.expire now).1.dueSources now
  let records := due.filterMap fun key => (b.store.values.find? key).map fun v => ⟨key, v⟩
  ({ b with table }, records)

end Binder

end LinkFabric
