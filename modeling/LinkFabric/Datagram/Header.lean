import LinkFabric.Bytes
import LinkFabric.Datagram.Error

/-!
# Datagram headers

Every datagram begins with the same eight bytes: the word of its protocol family, the
kind of message, the protocol version, flags and a reserved byte. Datagrams about
links go on with the sender's device and universe, by which a receiver drops what it
sent itself and what is meant for others.

A decoder returns what it read and the bytes after it.
-/

namespace LinkFabric

/-- The number that names a device. -/
abbrev DeviceId := UInt64

/-- The kind of a message: a beacon of the election, or links that a node declares, bindings
that the leader assigns, values under keys, or a sign of life with a node's tags. -/
inductive MessageKind where
  | announce | advert | bind | data | heartbeat
  deriving DecidableEq, Repr

namespace MessageKind

/-- All kinds of message. -/
def all : List MessageKind := [announce, advert, bind, data, heartbeat]

/-- The code of a kind on the wire. -/
def code : MessageKind → UInt8
  | announce => 0x01 | advert => 0x10 | bind => 0x11 | data => 0x12 | heartbeat => 0x13

/-- The kind with the given code. -/
def ofCode? (n : UInt8) : Option MessageKind := all.find? fun k => k.code == n

/-- The name of a kind. -/
def name : MessageKind → String
  | announce => "announce" | advert => "advert" | bind => "bind" | data => "data"
  | heartbeat => "heartbeat"

/-- The kind with the given name. -/
def ofName? (s : String) : Option MessageKind := all.find? fun k => k.name == s

@[simp] theorem ofCode?_code (k : MessageKind) : ofCode? k.code = some k := by
  cases k <;> rfl

theorem ofCode?_eq_some_iff {n : UInt8} {k : MessageKind} : ofCode? n = some k ↔ n = k.code := by
  constructor
  · intro h
    have hcode := List.find?_some h
    exact (eq_of_beq hcode).symm
  · rintro rfl
    exact ofCode?_code k

end MessageKind

/-- The two protocol families, which never share a datagram. -/
inductive Family where
  | election | link
  deriving DecidableEq, Repr

/-- The first word of a family's datagrams. -/
def Family.magic : Family → UInt32
  | election => 0x484C4B45
  | link => 0x484C4B4C

namespace Datagram

/-- The version of the protocol. -/
def version : UInt8 := 1

/-- The most bytes that a datagram carries. -/
def maxLength : Nat := 1200

/-- The most bytes of a datagram that a receiver takes in. -/
def receiveLength : Nat := 1536

/-- The bytes that every datagram begins with. -/
def commonLength : Nat := 8

/-- The bytes before the body of a datagram about links. -/
def headerLength : Nat := 20

/-- The first `n` bytes and the rest, if there are so many. -/
def split (n : Nat) (bytes : Bytes) : Except DatagramError (Bytes × Bytes) :=
  if bytes.length < n then .error (.truncated n bytes.length)
  else .ok (bytes.take n, bytes.drop n)

/-- The bytes that a datagram of a family begins with. -/
def encodeCommon (family : Family) (kind : MessageKind) (flags : UInt8) : Bytes :=
  LittleEndian.word32 family.magic ++ [kind.code, version, flags, 0]

/-- Reads the kind and the flags of a datagram of a family. -/
def decodeCommon (family : Family) (bytes : Bytes) :
    Except DatagramError ((MessageKind × UInt8) × Bytes) := do
  let (common, rest) ← split commonLength bytes
  if common.word32At 0 ≠ family.magic then .error (.badMagic (common.word32At 0))
  else if common.byteAt 5 ≠ version then .error (.badVersion (common.byteAt 5))
  else
    match MessageKind.ofCode? (common.byteAt 4) with
    | none => .error (.unknownKind (common.byteAt 4))
    | some kind => .ok ((kind, common.byteAt 6), rest)

end Datagram

/-- The header of a datagram about links, with the device and the universe it comes from. -/
structure Header where
  kind : MessageKind
  flags : UInt8
  origin : DeviceId
  realm : UInt32
  deriving DecidableEq, Repr

namespace Header

/-- The bytes of a header. -/
def encode (h : Header) : Bytes :=
  Datagram.encodeCommon .link h.kind h.flags ++ LittleEndian.word64 h.origin ++
    LittleEndian.word32 h.realm

/-- Reads a header. -/
def decode (bytes : Bytes) : Except DatagramError (Header × Bytes) := do
  let ((kind, flags), rest) ← Datagram.decodeCommon .link bytes
  let (sender, rest) ← Datagram.split (Datagram.headerLength - Datagram.commonLength) rest
  return (⟨kind, flags, sender.word64At 0, sender.word32At 8⟩, rest)

end Header

/-- A place on the segment: a device in a universe. -/
structure Station where
  device : DeviceId
  realm : UInt32
  deriving DecidableEq, Repr

namespace Station

/-- The header of a message that the station sends. -/
def header (s : Station) (kind : MessageKind) (flags : UInt8) : Header :=
  ⟨kind, flags, s.device, s.realm⟩

/-- Refuses what the station sent itself, and what belongs to another universe. -/
def accept (s : Station) (h : Header) : Except DatagramError Unit :=
  if h.origin = s.device then .error .selfOrigin
  else if h.realm ≠ s.realm then .error (.foreignUniverse h.realm)
  else .ok ()

end Station

end LinkFabric
