import LinkFabric.Blake3
import LinkFabric.Link.Basic

/-!
# Link identities

Nodes that declare the same link have to arrive at the same name for it without
talking to each other. The name is a hash of a serialisation with one form per link.
-/

namespace LinkFabric

/-- The name of a link. -/
abbrev LinkId := UInt64

/-- The text of a name: sixteen digits, most significant first. -/
def LinkId.text (id : LinkId) : String := Hex.padded 16 id.toNat

namespace Link

/-- Four bytes of the serialisation are kept for a filter and are zero. -/
def reservedFilter : UInt32 := 0

/-- The serialisation that a link is named by. -/
def canonicalBytes (l : Link) : Bytes :=
  [l.mode.code, l.aggregation.code] ++ LittleEndian.word16 l.rate.ms ++
    LittleEndian.word32 l.sourceKey ++ LittleEndian.word32 l.destKey ++
    LittleEndian.word32 l.tag ++ LittleEndian.word32 reservedFilter ++
    l.query.slots.toList.flatMap LittleEndian.word32

/-- The length of the serialisation of every link. -/
def canonicalLength : Nat := 52

/-- The name of a link: the first eight bytes of the hash of its serialisation. -/
def id (l : Link) : LinkId := Bytes.word64At (Blake3.hash128 l.canonicalBytes) 0

theorem length_canonicalBytes (l : Link) : l.canonicalBytes.length = canonicalLength := by
  simp only [canonicalBytes, canonicalLength, List.length_append, List.length_cons,
    List.length_nil, LittleEndian.length_word16, LittleEndian.length_word32,
    LittleEndian.length_flatMap_eq LittleEndian.length_word32, Vector.length_toList]

end Link

end LinkFabric
