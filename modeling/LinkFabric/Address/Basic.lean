import LinkFabric.SortedMap

/-!
# Network addresses

A node is known by its address, of protocol version 4 or 6. Addresses are ordered
with all of version 4 first and numerically within a version.
-/

namespace LinkFabric

/-- An address of a node, of version 4 or 6, most significant octet first. -/
inductive Address where
  | v4 (bits : UInt32)
  | v6 (bits : BitVec 128)
  deriving DecidableEq

namespace Address

/-- The place of an address in the order of addresses. -/
def rank : Address → Nat
  | v4 bits => bits.toNat
  | v6 bits => UInt32.size + bits.toNat

theorem eq_of_rank_eq {a b : Address} (h : a.rank = b.rank) : a = b := by
  cases a with
  | v4 x =>
    cases b with
    | v4 y => exact congrArg v4 (UInt32.toNat.inj h)
    | v6 y =>
      have := x.toNat_lt
      simp only [rank, UInt32.size] at h
      omega
  | v6 x =>
    cases b with
    | v4 y =>
      have := y.toNat_lt
      simp only [rank, UInt32.size] at h
      omega
    | v6 y => exact congrArg v6 (BitVec.eq_of_toNat_eq (by simpa [rank] using h))

instance : Ranked Address := ⟨rank, eq_of_rank_eq⟩

/-- The version 4 address with the given four octets. -/
def ofOctets (a b c d : Nat) : Address :=
  v4 (UInt32.ofNat (((a * 256 + b) * 256 + c) * 256 + d))

/-- The four octets of a version 4 address. -/
def octets (bits : UInt32) : List Nat :=
  [24, 16, 8, 0].map fun shift => bits.toNat >>> shift % 256

/-- The version 6 address with the given 16-bit groups. -/
def ofGroups (groups : List Nat) : Address :=
  v6 (BitVec.ofNat 128 (groups.foldl (fun acc g => acc * 65536 + g) 0))

/-- The eight 16-bit groups of a version 6 address. -/
def groups (bits : BitVec 128) : List Nat :=
  [112, 96, 80, 64, 48, 32, 16, 0].map fun shift => bits.toNat >>> shift % 65536

/-- The address at which a node reaches itself. -/
def loopback : Address := ofOctets 127 0 0 1

end Address

end LinkFabric
