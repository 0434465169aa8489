/-!
# Byte strings

Inputs, outputs, keys and buffers are lists of bytes. `blocks n` cuts a byte
string into whole blocks of `n` bytes and drops a shorter rest.
-/

namespace StreamDigest

abbrev Bytes := List UInt8

namespace Bytes

def zeros (n : Nat) : Bytes := List.replicate n 0

/-- `bs` with the zero bytes that it lacks to `n`. -/
def padTo (n : Nat) (bs : Bytes) : Bytes := bs ++ zeros (n - bs.length)

/-- The first `k` pieces of `n` bytes. -/
def pieces (n : Nat) : Nat → Bytes → List Bytes
  | 0, _ => []
  | k + 1, bs => bs.take n :: pieces n k (bs.drop n)

/-- The whole blocks of `n` bytes; a shorter rest is dropped. -/
def blocks (n : Nat) (bs : Bytes) : List Bytes := pieces n (bs.length / n) bs

/-- Bytewise exclusive or, as long as the shorter operand. -/
def xor (as bs : Bytes) : Bytes := List.zipWith (· ^^^ ·) as bs

end Bytes

end StreamDigest
