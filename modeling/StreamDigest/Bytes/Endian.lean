import StreamDigest.Bytes.Basic

/-!
# Numbers as bytes

`ofLE` and `ofBE` read a byte string of any length as a number, least or most
significant byte first; `toLE n` and `toBE n` write the low `n` bytes of a
number.
-/

namespace StreamDigest.Bytes

/-- The number whose bytes are given, least significant first. -/
def ofLE : Bytes → Nat
  | [] => 0
  | b :: bs => b.toNat + 256 * ofLE bs

def ofBE (bs : Bytes) : Nat := ofLE bs.reverse

/-- The low `n` bytes of a number, least significant first. -/
def toLE : Nat → Nat → Bytes
  | 0, _ => []
  | n + 1, x => UInt8.ofNat x :: toLE n (x / 256)

def toBE (n x : Nat) : Bytes := (toLE n x).reverse

end StreamDigest.Bytes
