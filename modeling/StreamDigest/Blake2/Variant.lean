import StreamDigest.Algorithm

/-!
# The two variants of BLAKE2

BLAKE2s computes on 32-bit words and BLAKE2b on 64-bit words. All lengths
follow from the word: a block is 16 words, a digest and a key at most 8, a
salt and a personalization 2. Beside the word only the number of rounds, the
rotations and the initial value differ.
-/

namespace StreamDigest.Blake2

inductive Variant where
  | s
  | b
  deriving DecidableEq, Repr

namespace Variant

def algorithm : Variant → Algorithm
  | s => .blake2s
  | b => .blake2b

def wordBits : Variant → Nat
  | s => 32
  | b => 64

def wordLen (v : Variant) : Nat := v.wordBits / 8

abbrev Word (v : Variant) := BitVec v.wordBits

def blockLen (v : Variant) : Nat := 16 * v.wordLen

/-- The longest digest and the longest key, in bytes. -/
def maxLen (v : Variant) : Nat := 8 * v.wordLen

/-- The length of a salt or a personalization that is not empty. -/
def fieldLen (v : Variant) : Nat := 2 * v.wordLen

/-- The longest message, `2 ^ 64 - 1` bytes. The counter of BLAKE2s has no more
than 64 bits and has to cover a key block too. -/
def maxInput : Variant → Nat
  | s => 0xffff_ffff_ffff_ffff - 64
  | b => 0xffff_ffff_ffff_ffff

def rounds : Variant → Nat
  | s => 10
  | b => 12

/-- The four rotations of a mixing step, in the order of their use. -/
def rotations : Variant → Nat × Nat × Nat × Nat
  | s => (16, 12, 8, 7)
  | b => (32, 24, 16, 63)

def iv : (v : Variant) → Vector v.Word 8
  | s => #v[0x6a09e667#32, 0xbb67ae85#32, 0x3c6ef372#32, 0xa54ff53a#32,
      0x510e527f#32, 0x9b05688c#32, 0x1f83d9ab#32, 0x5be0cd19#32]
  | b => #v[0x6a09e667f3bcc908#64, 0xbb67ae8584caa73b#64, 0x3c6ef372fe94f82b#64,
      0xa54ff53a5f1d36f1#64, 0x510e527fade682d1#64, 0x9b05688c2b3e6c1f#64,
      0x1f83d9abfb41bd6b#64, 0x5be0cd19137e2179#64]

end Variant

end StreamDigest.Blake2
