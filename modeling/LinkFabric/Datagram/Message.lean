import LinkFabric.Datagram.Record
import LinkFabric.Packing

/-!
# Messages about links

Nodes tell the leader of their links, values and tags; the leader tells nodes of their
bindings and of values. A message is written as one or more datagrams that each fit
the network, and a datagram is read as one message.

Values are packed as tightly as their order allows; a value that fits no datagram is
left out.
-/

namespace LinkFabric

/-- The content of a datagram about links. Bindings with `first` set begin a new assignment. -/
inductive Message where
  | advert (links : List Link)
  | bind (first : Bool) (bindings : List Binding)
  | data (records : List Datum)
  | heartbeat (heartbeat : Heartbeat)
  deriving DecidableEq

namespace Message

/-- The most links in one datagram. -/
def maxLinks : Nat := (Datagram.maxLength - Datagram.headerLength) / Record.linkLength

/-- The most bindings in one datagram. -/
def maxBindings : Nat := (Datagram.maxLength - Datagram.headerLength) / Record.bindingLength

/-- The bytes of value records in one datagram. -/
def dataBudget : Nat := Datagram.maxLength - Datagram.headerLength

/-- The bytes of a heartbeat after the header. -/
def heartbeatLength : Nat := 36

/-- The flag of the first datagram of an assignment. -/
def firstFlag : UInt8 := 0x01

/-! ## Writing -/

/-- The datagrams that advertise links. -/
def encodeAdvert (station : Station) (links : List Link) : List Bytes :=
  (Packing.chunks maxLinks links).map fun chunk =>
    (station.header .advert 0).encode ++ chunk.flatMap Record.encodeLink

/-- The datagram that assigns bindings. -/
def encodeBind (station : Station) (first : Bool) (bindings : List Binding) :
    Except DatagramError Bytes :=
  if maxBindings < bindings.length then .error (.oversized bindings.length maxBindings)
  else
    .ok ((station.header .bind (if first then firstFlag else 0)).encode ++
      bindings.flatMap Record.encodeBinding)

/-- The datagrams that carry values. -/
def encodeData (station : Station) (records : List Datum) : List Bytes :=
  let sendable := records.filter fun d => decide (Record.datumLength d ≤ dataBudget)
  (Packing.pack Record.datumLength dataBudget sendable).map fun group =>
    (station.header .data 0).encode ++ group.flatMap Record.encodeDatum

/-- The datagram of a heartbeat. -/
def encodeHeartbeat (station : Station) (h : Heartbeat) : Except DatagramError Bytes :=
  if maxQueryTags < h.tags.length then .error (.link (.tooManyTags h.tags.length))
  else
    let slots := h.tags ++ List.replicate (maxQueryTags - h.tags.length) 0
    .ok ((station.header .heartbeat 0).encode ++ LittleEndian.word32 h.serviceFlags ++
      slots.flatMap LittleEndian.word32)

/-- The datagrams of a message. -/
def encode (station : Station) : Message → Except DatagramError (List Bytes)
  | advert links => .ok (encodeAdvert station links)
  | bind first bindings => (encodeBind station first bindings).map ([·])
  | data records => .ok (encodeData station records)
  | heartbeat h => (encodeHeartbeat station h).map ([·])

/-! ## Reading -/

/-- Reads the body of a heartbeat. Empty slots are skipped and bytes after the slots
ignored. -/
def decodeHeartbeat (bytes : Bytes) : Except DatagramError Heartbeat := do
  let (body, _) ← Datagram.split heartbeatLength bytes
  return ⟨body.word32At 0, (body.words32At 4 8).toList.filter (· ≠ 0)⟩

/-- Reads the body that goes with a header. -/
def decodeBody (header : Header) (body : Bytes) : Except DatagramError Message :=
  match header.kind with
  | .advert => (Record.decodeAll Record.decodeLink body).map advert
  | .bind =>
    (Record.decodeAll Record.decodeBinding body).map (bind (header.flags &&& firstFlag != 0))
  | .data => (Record.decodeAll Record.decodeDatum body).map data
  | .heartbeat => (decodeHeartbeat body).map heartbeat
  | .announce => .error (.unexpectedKind .link)

/-- Reads a datagram that reached a station. -/
def decode (station : Station) (bytes : Bytes) : Except DatagramError (Header × Message) := do
  let (header, body) ← Header.decode bytes
  station.accept header
  let message ← decodeBody header body
  return (header, message)

end Message

end LinkFabric
