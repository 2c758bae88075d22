import LinkFabric.Datagram.Header
import LinkFabric.Link.Basic
import LinkFabric.Value

/-!
# Records

The bodies of datagrams about links are sequences of records: links of 48 bytes,
bindings of 8, values of a length that they tell themselves. For every record there
is an encoder and a decoder that returns the bytes after the record.
-/

namespace LinkFabric

/-- What a node does with a bound key: it sends the key's value to the leader, or writes the
leader's values to the key. -/
inductive BindingRole where
  | source | sink
  deriving DecidableEq, Repr

namespace BindingRole

/-- The flag of a role in a record. -/
def flag : BindingRole → UInt8
  | source => 0x01
  | sink => 0x02

/-- The role in a record's flags. Exactly one of the two flags has to be set. -/
def ofFlags? (flags : UInt8) : Option BindingRole :=
  if flags &&& 0x03 = source.flag then some source
  else if flags &&& 0x03 = sink.flag then some sink
  else none

/-- The name of a role. -/
def name : BindingRole → String
  | source => "source"
  | sink => "sink"

/-- The role with the given name. -/
def ofName? (s : String) : Option BindingRole := [source, sink].find? fun r => r.name == s

@[simp] theorem ofFlags?_flag (r : BindingRole) : ofFlags? r.flag = some r := by
  cases r <;> rfl

theorem ofFlags?_eq_some_iff {flags : UInt8} {r : BindingRole} :
    ofFlags? flags = some r ↔ flags &&& 0x03 = r.flag := by
  constructor
  · intro h
    unfold ofFlags? at h
    split at h
    · rename_i hsource
      cases h
      exact hsource
    · split at h
      · rename_i hsink
        cases h
        exact hsink
      · cases h
  · intro h
    unfold ofFlags?
    cases r <;> simp [h, flag]

end BindingRole

/-- An assignment of the leader to a node: what to do with a key, and how often, in
milliseconds. -/
structure Binding where
  key : Key
  rate : UInt16
  role : BindingRole
  deriving DecidableEq, Repr

/-- A value under its key. -/
structure Datum where
  key : Key
  value : Value
  deriving DecidableEq

/-- What a node tells the leader about itself: what it offers, and its tags. -/
structure Heartbeat where
  serviceFlags : UInt32
  tags : List Tag
  deriving DecidableEq, Repr

namespace Record

/-! ## Links -/

/-- The bytes of a link record. -/
def linkLength : Nat := 48

/-- The record of a link. -/
def encodeLink (l : Link) : Bytes :=
  [l.mode.code, l.aggregation.code] ++ LittleEndian.word16 l.rate.ms ++
    LittleEndian.word32 l.sourceKey ++ LittleEndian.word32 l.destKey ++
    LittleEndian.word32 l.tag ++ l.query.slots.toList.flatMap LittleEndian.word32

/-- Reads a link. Its tags are put in order and its rate is clamped. -/
def decodeLink (bytes : Bytes) : Except DatagramError (Link × Bytes) := do
  let (record, rest) ← Datagram.split linkLength bytes
  match Mode.ofCode? (record.byteAt 0) with
  | none => .error (.link (.unknownMode (record.byteAt 0)))
  | some mode =>
    match Aggregation.ofCode? (record.byteAt 1) with
    | none => .error (.link (.unknownAggregation (record.byteAt 1)))
    | some aggregation =>
      let link : Link :=
        { mode, aggregation
          rate := .clamp (record.word16At 2).toNat
          sourceKey := record.word32At 4
          destKey := record.word32At 8
          tag := record.word32At 12
          query := .ofSlots (record.words32At 16 8) }
      .ok (link, rest)

/-! ## Bindings -/

/-- The bytes of a binding record. -/
def bindingLength : Nat := 8

/-- The record of a binding. -/
def encodeBinding (b : Binding) : Bytes :=
  LittleEndian.word32 b.key ++ LittleEndian.word16 b.rate ++ [b.role.flag, 0]

/-- Reads a binding. -/
def decodeBinding (bytes : Bytes) : Except DatagramError (Binding × Bytes) := do
  let (record, rest) ← Datagram.split bindingLength bytes
  match BindingRole.ofFlags? (record.byteAt 6) with
  | none => .error (.unknownRole (record.byteAt 6))
  | some role => .ok (⟨record.word32At 0, record.word16At 4, role⟩, rest)

/-! ## Values -/

/-- The bytes of a value record before the value. -/
def datumHeaderLength : Nat := 6

/-- The bytes of a value record. -/
def datumLength (d : Datum) : Nat := datumHeaderLength + d.value.data.length

/-- The record of a value. -/
def encodeDatum (d : Datum) : Bytes :=
  LittleEndian.word32 d.key ++ [d.value.shape.type.code, d.value.shape.count] ++ d.value.data

/-- Reads a value. -/
def decodeDatum (bytes : Bytes) : Except DatagramError (Datum × Bytes) := do
  let (record, rest) ← Datagram.split datumHeaderLength bytes
  match ScalarType.ofCode? (record.byteAt 4) with
  | none => .error (.link (.unknownValueType (record.byteAt 4)))
  | some type =>
    let shape : Shape := ⟨type, record.byteAt 5⟩
    let (data, rest) ← Datagram.split shape.byteLength rest
    match Value.ofBytes shape data with
    | .error e => .error (.link e)
    | .ok value => .ok (⟨record.word32At 0, value⟩, rest)

/-! ## Sequences -/

/-- Reads records to the end of the bytes, at most `fuel` of them. -/
def decodeUpTo {α : Type} (decode : Bytes → Except DatagramError (α × Bytes)) :
    (fuel : Nat) → Bytes → Except DatagramError (List α)
  | _, [] => .ok []
  | 0, _ :: _ => .ok []
  | fuel + 1, b :: bytes => do
    let (record, rest) ← decode (b :: bytes)
    let records ← decodeUpTo decode fuel rest
    return record :: records

/-- Reads records to the end of the bytes. Every record takes at least one byte, so there
are no more records than bytes. -/
def decodeAll {α : Type} (decode : Bytes → Except DatagramError (α × Bytes)) (bytes : Bytes) :
    Except DatagramError (List α) :=
  decodeUpTo decode bytes.length bytes

end Record

end LinkFabric
