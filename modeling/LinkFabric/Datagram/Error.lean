import LinkFabric.Link.Error

/-!
# What can be wrong with a datagram
-/

namespace LinkFabric

/-- The kinds of message that a decoder can ask for. -/
inductive Expected where
  | announce | link
  deriving DecidableEq, Repr

/-- The word for what was expected. -/
def Expected.name : Expected → String
  | announce => "announce"
  | link => "link"

/-- Why a datagram is dropped, or cannot be built. -/
inductive DatagramError where
  | badMagic (word : UInt32)
  | badVersion (version : UInt8)
  | unknownKind (code : UInt8)
  | selfOrigin
  | foreignUniverse (realm : UInt32)
  | truncated (needed available : Nat)
  | unknownRole (flags : UInt8)
  | unexpectedKind (expected : Expected)
  | oversized (records limit : Nat)
  | link (cause : LinkError)
  deriving DecidableEq, Repr

/-- The wording of an error. -/
def DatagramError.message : DatagramError → String
  | badMagic word => "bad magic " ++ Hex.word32 word
  | badVersion version => "unsupported version " ++ toString version.toNat
  | unknownKind code => "unknown message type " ++ Hex.byte code
  | selfOrigin => "self-originated message"
  | foreignUniverse realm => "message for universe " ++ toString realm.toNat
  | truncated needed available =>
    "truncated datagram: need " ++ toString needed ++ " bytes, have " ++ toString available
  | unknownRole flags => "bind record with unknown role flags " ++ Hex.byte flags
  | unexpectedKind expected => "expected " ++ expected.name ++ " message"
  | oversized records limit =>
    toString records ++ " records do not fit one datagram (max " ++ toString limit ++ ")"
  | link cause => cause.message

end LinkFabric
