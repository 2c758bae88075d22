import LinkFabric.Bytes

/-!
# BLAKE3 of one block

Link identities are the BLAKE3 hash of a short serialisation. A message of at most
64 bytes is a single chunk of a single block, so its hash is one run of the
compression function with the flags for the first, the last and the root block.

The sixteen words of the state are kept as four rows of four. A round mixes the
columns, turns the rows so that the diagonals become columns, mixes again and turns
the rows back.
-/

namespace LinkFabric.Blake3

/-- Four words of the state, one for each column. -/
structure Row where
  c0 : UInt32
  c1 : UInt32
  c2 : UInt32
  c3 : UInt32

namespace Row

/-- Combines two rows column by column. -/
def zip (f : UInt32 → UInt32 → UInt32) (x y : Row) : Row :=
  ⟨f x.c0 y.c0, f x.c1 y.c1, f x.c2 y.c2, f x.c3 y.c3⟩

/-- The sum of two rows. -/
def add (x y : Row) : Row := zip (· + ·) x y

/-- The exclusive or of two rows. -/
def xor (x y : Row) : Row := zip (· ^^^ ·) x y

/-- Turns every word right by `n` bits. -/
def rotateBits (n : UInt32) (x : Row) : Row :=
  let turn (w : UInt32) := (w >>> n) ||| (w <<< (32 - n))
  ⟨turn x.c0, turn x.c1, turn x.c2, turn x.c3⟩

/-- Turns a row left by one column. -/
def turn (x : Row) : Row := ⟨x.c1, x.c2, x.c3, x.c0⟩

end Row

/-- The state of the compression function. -/
structure State where
  a : Row
  b : Row
  c : Row
  d : Row

/-- The sixteen words of a message block. -/
abbrev Block := Vector UInt32 16

/-- Mixes every column with two words of the message. -/
def mix (s : State) (x y : Row) : State :=
  let a := (s.a.add s.b).add x
  let d := (s.d.xor a).rotateBits 16
  let c := s.c.add d
  let b := (s.b.xor c).rotateBits 12
  let a := (a.add b).add y
  let d := (d.xor a).rotateBits 8
  let c := c.add d
  let b := (b.xor c).rotateBits 7
  ⟨a, b, c, d⟩

/-- Turns the rows so that the diagonals stand in the columns. -/
def diagonals (s : State) : State := ⟨s.a, s.b.turn, s.c.turn.turn, s.d.turn.turn.turn⟩

/-- Turns the rows back. -/
def columns (s : State) : State := ⟨s.a, s.b.turn.turn.turn, s.c.turn.turn, s.d.turn⟩

/-- One round. -/
def round (s : State) (m : Block) : State :=
  let s := mix s ⟨m[0], m[2], m[4], m[6]⟩ ⟨m[1], m[3], m[5], m[7]⟩
  columns (mix (diagonals s) ⟨m[8], m[10], m[12], m[14]⟩ ⟨m[9], m[11], m[13], m[15]⟩)

/-- The order in which the next round takes the words of the message. -/
def permute (m : Block) : Block :=
  #v[m[2], m[6], m[3], m[10], m[7], m[0], m[4], m[13],
    m[1], m[11], m[12], m[5], m[9], m[14], m[15], m[8]]

/-- A number of rounds, the message permuted between them. -/
def rounds : Nat → State → Block → State
  | 0, s, _ => s
  | n + 1, s, m => rounds n (round s m) (permute m)

/-- The first half of the initial chaining value. -/
def initLow : Row := ⟨0x6A09E667, 0xBB67AE85, 0x3C6EF372, 0xA54FF53A⟩

/-- The second half of the initial chaining value. -/
def initHigh : Row := ⟨0x510E527F, 0x9B05688C, 0x1F83D9AB, 0x5BE0CD19⟩

/-- The flags of a block that is the first and last of its chunk and the root. -/
def rootFlags : UInt32 := 1 ||| 2 ||| 8

/-- The words of a message of at most 64 bytes, padded with zeros. -/
def block (message : Bytes) : Block := Bytes.words32At message 0 16

/-- The first sixteen bytes of the hash of a message of at most 64 bytes. -/
def hash128 (message : Bytes) : Bytes :=
  let start : State := ⟨initLow, initHigh, initLow, ⟨0, 0, UInt32.ofNat message.length, rootFlags⟩⟩
  let s := rounds 7 start (block message)
  let out := s.a.xor s.c
  [out.c0, out.c1, out.c2, out.c3].flatMap LittleEndian.word32

end LinkFabric.Blake3
