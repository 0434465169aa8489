import Mathlib
import StreamDigest.Blake2.Compress
import StreamDigest.Blake2.Params
import StreamDigest.Proofs.Bytes.Slices

/-!
# BLAKE2 as the standard writes it

The hash function of RFC 7693, section 3, with salt and personalization in the
parameter block: one flat loop over padded data blocks. The constants are
stated by what they are (square roots of primes, permutations as hexadecimal
digits), the working vector is a function that is assigned to word by word, and
no block is held back. Only the parameter record, the triple of an input and
the operations on byte strings are taken from the library.
-/

namespace StreamDigest.Blake2.Standard

/-! ## Constants -/

/-- Bytes in a data block. -/
def blockBytes : Variant → Nat
  | .s => 64
  | .b => 128

/-- The longest digest and the longest key. -/
def maxBytes : Variant → Nat
  | .s => 32
  | .b => 64

def roundCount : Variant → Nat
  | .s => 10
  | .b => 12

/-- The distances of the rotations. -/
structure Rotations where
  R₁ : Nat
  R₂ : Nat
  R₃ : Nat
  R₄ : Nat

def rotation : Variant → Rotations
  | .s => ⟨16, 12, 8, 7⟩
  | .b => ⟨32, 24, 16, 63⟩

/-- The first eight primes. -/
def prime : Fin 8 → Nat := ![2, 3, 5, 7, 11, 13, 17, 19]

/-- Word `i` of the initialization vector: the first bits of the fractional part
of the square root of prime `i`. -/
def initial (v : Variant) (i : Fin 8) : v.Word :=
  BitVec.ofNat _ (Nat.sqrt (prime i * 2 ^ (2 * v.wordBits)))

/-- The ten message schedules, a hexadecimal digit for each word. -/
def schedules : List Nat :=
  [0x0123456789abcdef, 0xea489fd61c02b753, 0xb8c052fdae367194, 0x7931dcbe265a40f8,
    0x905724afe1bc683d, 0x2c6a0b834d75fe19, 0xc51fed4a0763928b, 0xdb7ec13950f4862a,
    0x6fe9b308c2d714a5, 0xa2847615fb9e3cd0]

/-- A place in the working vector or in a block, which have two halves of eight words. -/
abbrev Place := Fin (8 + 8)

/-- The word of the message that round `r` uses in place `i`. -/
def schedule (r : Nat) (i : Place) : Place :=
  Fin.ofNat _ (schedules.getD (r % 10) 0 / 16 ^ (15 - i.val))

/-! ## The compression function -/

variable (v : Variant)

/-- The mixing function `G`, assignment by assignment. -/
def mixing (w : Place → v.Word) (a b c d : Place) (x y : v.Word) : Place → v.Word :=
  let w := Function.update w a (w a + w b + x)
  let w := Function.update w d ((w d ^^^ w a).rotateRight (rotation v).R₁)
  let w := Function.update w c (w c + w d)
  let w := Function.update w b ((w b ^^^ w c).rotateRight (rotation v).R₂)
  let w := Function.update w a (w a + w b + y)
  let w := Function.update w d ((w d ^^^ w a).rotateRight (rotation v).R₃)
  let w := Function.update w c (w c + w d)
  Function.update w b ((w b ^^^ w c).rotateRight (rotation v).R₄)

/-- Round `r`: the columns, then the diagonals. -/
def roundOf (m w : Place → v.Word) (r : Nat) : Place → v.Word :=
  let s := schedule r
  let w := mixing v w 0 4 8 12 (m (s 0)) (m (s 1))
  let w := mixing v w 1 5 9 13 (m (s 2)) (m (s 3))
  let w := mixing v w 2 6 10 14 (m (s 4)) (m (s 5))
  let w := mixing v w 3 7 11 15 (m (s 6)) (m (s 7))
  let w := mixing v w 0 5 10 15 (m (s 8)) (m (s 9))
  let w := mixing v w 1 6 11 12 (m (s 10)) (m (s 11))
  let w := mixing v w 2 7 8 13 (m (s 12)) (m (s 13))
  mixing v w 3 4 9 14 (m (s 14)) (m (s 15))

/-- The working vector before the rounds: the state and the initialization
vector, with the offset counter `t` and the mark of the final block in it. -/
def startVector (h : Fin 8 → v.Word) (t : Nat) (f : Bool) : Place → v.Word :=
  let w := Fin.append h (initial v)
  let w := Function.update w 12 (w 12 ^^^ BitVec.ofNat _ (t % 2 ^ v.wordBits))
  let w := Function.update w 13 (w 13 ^^^ BitVec.ofNat _ (t / 2 ^ v.wordBits))
  if f then Function.update w 14 (w 14 ^^^ BitVec.allOnes _) else w

/-- The compression function `F`. -/
def compression (h : Fin 8 → v.Word) (m : Place → v.Word) (t : Nat) (f : Bool) :
    Fin 8 → v.Word :=
  let w := (List.range (roundCount v)).foldl (roundOf v m) (startVector v h t f)
  fun i => h i ^^^ w (i.castAdd 8) ^^^ w (i.natAdd 8)

/-! ## The hash -/

/-- The words of a byte string, the least significant byte first. -/
def words (n : Nat) (bs : Bytes) (i : Fin n) : v.Word :=
  BitVec.ofNat _ (Bytes.ofLE ((bs.drop (i * (blockBytes v / 16))).take (blockBytes v / 16)))

/-- A salt or a personalization in the parameter block; an empty one is zeros. -/
def field (bs : Bytes) : Bytes := if bs = [] then Bytes.zeros (maxBytes v / 4) else bs

/-- The parameter block: digest length, key length, fanout `1`, depth `1`, zeros,
salt and personalization. -/
def parameterBlock (p : Params) : Bytes :=
  [UInt8.ofNat p.digestLen, UInt8.ofNat p.key.length, 1, 1] ++
    Bytes.zeros (maxBytes v / 2 - 4) ++ field v p.salt ++ field v p.personal

/-- The data blocks: the padded key if there is one, then the padded blocks of
the message; one block of zeros if there is neither. -/
def dataBlocks (key m : Bytes) : List Bytes :=
  let blocks := (if key = [] then [] else [key]) ++ Bytes.segments (blockBytes v) m
  if blocks = [] then [Bytes.zeros (blockBytes v)]
  else blocks.map (Bytes.padTo (blockBytes v))

/-- The bytes of the last block's counter: the message and the key block. -/
def totalBytes (key m : Bytes) : Nat := m.length + if key = [] then 0 else blockBytes v

/-- What goes through the compression function: each data block but the last with
the bytes up to its end, the last with the total and the mark. -/
def inputs (key m : Bytes) : List Input :=
  (dataBlocks v key m).mapIdx fun i block =>
    if i + 1 = (dataBlocks v key m).length then ⟨block, totalBytes v key m, true⟩
    else ⟨block, (i + 1) * blockBytes v, false⟩

/-- The state before the first block. -/
def startState (p : Params) : Fin 8 → v.Word :=
  fun i => initial v i ^^^ words v 8 (parameterBlock v p) i

/-- The state after the last block. -/
def state (p : Params) (m : Bytes) : Fin 8 → v.Word :=
  (inputs v p.key m).foldl
    (fun h x => compression v h (words v 16 x.block) x.counter x.last) (startState v p)

/-- The hash of a message: the first bytes of the state, in little-endian words. -/
def hash (p : Params) (m : Bytes) : Bytes :=
  ((List.ofFn (state v p m)).flatMap fun w => Bytes.toLE (blockBytes v / 16) w.toNat).take
    p.digestLen

/-- The parameters that the standard allows. -/
structure Admissible (p : Params) : Prop where
  digestLen_pos : 1 ≤ p.digestLen
  digestLen_le : p.digestLen ≤ maxBytes v
  key_le : p.key.length ≤ maxBytes v
  salt : p.salt = [] ∨ p.salt.length = maxBytes v / 4
  personal : p.personal = [] ∨ p.personal.length = maxBytes v / 4

end StreamDigest.Blake2.Standard
