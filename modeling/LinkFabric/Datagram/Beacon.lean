import LinkFabric.Datagram.Header

/-!
# Election beacons

A device that may lead says so in beacons: who it is, with what priority, and how long
it has been running. A beacon can also take the device out of the election, so that
its followers let go.
-/

namespace LinkFabric

/-- A beacon of the election. The lowest flag takes the device out of the election, and a device
of priority zero never leads. Timestamps are milliseconds since the device started. -/
structure Beacon where
  flags : UInt16
  priority : UInt16
  timestamp : UInt64
  device : DeviceId
  deriving DecidableEq, Repr

namespace Beacon

/-- The flag that takes a device out of the election. -/
def dropFlag : UInt16 := 1

/-- The bytes of a beacon after the common ones. -/
def bodyLength : Nat := 20

/-- The bytes of a beacon. -/
def length : Nat := Datagram.commonLength + bodyLength

/-- A beacon with no flags but the one for dropping. -/
def new (device : DeviceId) (priority : UInt16) (timestamp : UInt64) (drop : Bool) : Beacon :=
  ⟨if drop then dropFlag else 0, priority, timestamp, device⟩

/-- Whether the device takes itself out of the election. -/
def isDrop (b : Beacon) : Bool := b.flags &&& dropFlag != 0

@[simp] theorem isDrop_new (device : DeviceId) (priority : UInt16) (timestamp : UInt64)
    (drop : Bool) : (new device priority timestamp drop).isDrop = drop := by
  cases drop <;> simp [isDrop, new, dropFlag]

/-- The datagram of a beacon. -/
def encode (b : Beacon) : Bytes :=
  Datagram.encodeCommon .election .announce 0 ++ LittleEndian.word16 b.flags ++
    LittleEndian.word16 b.priority ++ LittleEndian.word64 b.timestamp ++
    LittleEndian.word64 b.device

/-- Reads a beacon; bytes after it are ignored. -/
def decode (bytes : Bytes) : Except DatagramError Beacon := do
  let ((kind, _), rest) ← Datagram.decodeCommon .election bytes
  if kind ≠ .announce then .error (.unexpectedKind .announce)
  else
    let (body, _) ← Datagram.split bodyLength rest
    return ⟨body.word16At 0, body.word16At 2, body.word64At 4, body.word64At 12⟩

end Beacon

end LinkFabric
