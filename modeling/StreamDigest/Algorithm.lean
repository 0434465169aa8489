/-!
# Algorithms and lane widths

The four algorithms that run on the streaming engine, and the vector widths a
compression backend may be written for. The lane width decides one thing
only: how many compression blocks the stream's buffer holds.
-/

namespace StreamDigest

/-- The algorithms driven by the streaming engine. -/
inductive Algorithm where
  | blake2s
  | blake2b
  | poly1305
  | ghash
  deriving DecidableEq, Repr

/-- The vector width of a backend: scalar words, 128-bit or 256-bit vectors. -/
inductive LaneWidth where
  | m32
  | m128
  | m256
  deriving DecidableEq, Repr

namespace Algorithm

def blockLen : Algorithm → Nat
  | blake2s => 64
  | blake2b => 128
  | poly1305 | ghash => 16

/-- The name used in messages. -/
def name : Algorithm → String
  | blake2s => "blake2s"
  | blake2b => "blake2b"
  | poly1305 => "poly1305"
  | ghash => "ghash"

/-- The name used in printed states. -/
def label : Algorithm → String
  | blake2s => "Blake2s"
  | blake2b => "Blake2b"
  | poly1305 => "Poly1305"
  | ghash => "Ghash"

/-- Compression blocks that a backend of the given width takes at a time. -/
def blocksPerCall : Algorithm → LaneWidth → Nat
  | _, .m32 => 1
  | blake2s, .m128 | blake2b, .m128 => 4
  | blake2s, .m256 | blake2b, .m256 => 8
  | poly1305, .m128 | ghash, .m128 => 2
  | poly1305, .m256 | ghash, .m256 => 4

def bufferLen (a : Algorithm) (lanes : LaneWidth) : Nat :=
  a.blocksPerCall lanes * a.blockLen

end Algorithm

def LaneWidth.label : LaneWidth → String
  | m32 => "M32"
  | m128 => "M128"
  | m256 => "M256"

end StreamDigest
