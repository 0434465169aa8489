import StreamDigest.Bytes.Endian
import StreamDigest.Bytes.Fixed

/-!
# Counter mode

The keystream of a nonce is the encryption of counter blocks: the nonce
followed by a 32-bit number, most significant byte first. The block with
number 1 masks the tag, the data starts with number 2. The block cipher is an
argument throughout.
-/

namespace StreamDigest.Gcm

def blockLen : Nat := 16

def nonceLen : Nat := 12

abbrev Block := FixedBytes blockLen

abbrev Nonce := FixedBytes nonceLen

/-- A permutation of the blocks, or any function on them. -/
abbrev BlockCipher := Block → Block

/-- The low 32 bits of a number, most significant byte first. -/
def numberBytes (number : Nat) : FixedBytes 4 :=
  Vector.ofFn fun i => UInt8.ofNat (number >>> (8 * (3 - i.val)))

def counterBlock (nonce : Nonce) (number : Nat) : Block := nonce ++ numberBytes number

/-- The block that masks the tag. -/
def preCounter (nonce : Nonce) : Block := counterBlock nonce 1

/-- `j` with its last 32 bits, taken as a number, increased by `k`. -/
def incrementBy (k : Nat) (j : Block) : Block :=
  counterBlock (Vector.ofFn fun i => j[i.val]) (Bytes.ofBE (j.toBytes.drop nonceLen) + k)

/-- The first `n` blocks of keystream after the block `j`: what the `ctr` library gives for
a 32-bit counter, most significant byte first, that starts at `j` and has sought past its
first block. Keystream block `i` is the encryption of `j` with its last 32 bits increased
by `i + 1`, modulo `2 ^ 32`. -/
def keystream (E : BlockCipher) (j : Block) (n : Nat) : Bytes :=
  (List.range n).flatMap fun i => (E (incrementBy (i + 1) j)).toBytes

def blockCount (len : Nat) : Nat := (len + (blockLen - 1)) / blockLen

/-- The blocks that `ctr` counts as remaining once it has sought past the first, the one
that masks the tag: its counter goes up to `2 ^ 32 - 1` and stands at 1, which leaves
`2 ^ 32 - 2`. -/
def maxBlocks : Nat := 0xffff_fffe

/-- Add the keystream after the block `j` to `data`. As in `ctr`, the remaining blocks are
looked at first: if `data` needs more of them, the call fails and no byte is changed. -/
def applyKeystream (E : BlockCipher) (j : Block) (data : Bytes) : Except Error Bytes :=
  if blockCount data.length ≤ maxBlocks then
    .ok (Bytes.xor data (keystream E j (blockCount data.length)))
  else .error (.keystreamExhausted data.length)

end StreamDigest.Gcm
