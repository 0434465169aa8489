import StreamDigest.Blake2.Variant
import StreamDigest.Bytes.Endian

/-!
# The BLAKE2 compression function

`compress` takes a chaining value and one input: a block, the counter and
whether the block is the last. It returns the new chaining value together
with the working vector that the rounds ended on. Each round uses the words of
the block in another order; after ten rounds the orders start over.
-/

namespace StreamDigest.Blake2

/-- The order in which a round uses the words of the message. -/
abbrev Order := Vector (Fin 16) 16

/-- The message orders of ten rounds. -/
def sigma : Vector Order 10 := #v[
  #v[0, 1, 2, 3, 4, 5, 6, 7, 8, 9, 10, 11, 12, 13, 14, 15],
  #v[14, 10, 4, 8, 9, 15, 13, 6, 1, 12, 0, 2, 11, 7, 5, 3],
  #v[11, 8, 12, 0, 5, 2, 15, 13, 10, 14, 3, 6, 7, 1, 9, 4],
  #v[7, 9, 3, 1, 13, 12, 11, 14, 2, 6, 5, 10, 4, 0, 15, 8],
  #v[9, 0, 5, 7, 2, 4, 10, 15, 14, 1, 11, 12, 6, 8, 3, 13],
  #v[2, 12, 6, 10, 0, 11, 8, 3, 4, 13, 7, 5, 15, 14, 1, 9],
  #v[12, 5, 1, 15, 14, 13, 4, 10, 0, 7, 6, 3, 9, 2, 8, 11],
  #v[13, 11, 7, 14, 12, 1, 3, 9, 5, 0, 15, 4, 8, 6, 2, 10],
  #v[6, 15, 14, 9, 11, 3, 0, 8, 12, 2, 13, 7, 1, 4, 10, 5],
  #v[10, 2, 8, 4, 7, 6, 1, 5, 15, 11, 9, 14, 3, 12, 13, 0]]

def orderOf (r : Nat) : Order := sigma[Fin.ofNat 10 r]

/-- What one run of the compression function takes in beside the chaining
value. The counter is the number of bytes up to the end of the block, a key
block included. -/
structure Input where
  block : Bytes
  counter : Nat
  last : Bool
  deriving DecidableEq, Repr

variable {v : Variant}

def wordsOf (v : Variant) (n : Nat) (bs : Bytes) : Vector v.Word n :=
  Vector.ofFn fun i =>
    BitVec.ofNat _ (Bytes.ofLE ((bs.drop (i * v.wordLen)).take v.wordLen))

/-- The bytes of words, least significant byte first. -/
def bytesOf {n : Nat} (ws : Vector v.Word n) : Bytes :=
  ws.toList.flatMap fun w => Bytes.toLE v.wordLen w.toNat

/-- One mixing step: the words at `a`, `b`, `c` and `d` of the working vector
with the message words `x` and `y`. -/
def mix (w : Vector v.Word 16) (a b c d : Fin 16) (x y : v.Word) : Vector v.Word 16 :=
  let (r₁, r₂, r₃, r₄) := v.rotations
  let a₁ := w[a] + w[b] + x
  let d₁ := (w[d] ^^^ a₁).rotateRight r₁
  let c₁ := w[c] + d₁
  let b₁ := (w[b] ^^^ c₁).rotateRight r₂
  let a₂ := a₁ + b₁ + y
  let d₂ := (d₁ ^^^ a₂).rotateRight r₃
  let c₂ := c₁ + d₂
  let b₂ := (b₁ ^^^ c₂).rotateRight r₄
  (((w.set a a₂).set b b₂).set c c₂).set d d₂

/-- One round: the four columns, then the four diagonals. -/
def round (m : Vector v.Word 16) (w : Vector v.Word 16) (order : Order) : Vector v.Word 16 :=
  let word (i : Fin 16) := m[order[i]]
  let w := mix w 0 4 8 12 (word 0) (word 1)
  let w := mix w 1 5 9 13 (word 2) (word 3)
  let w := mix w 2 6 10 14 (word 4) (word 5)
  let w := mix w 3 7 11 15 (word 6) (word 7)
  let w := mix w 0 5 10 15 (word 8) (word 9)
  let w := mix w 1 6 11 12 (word 10) (word 11)
  let w := mix w 2 7 8 13 (word 12) (word 13)
  mix w 3 4 9 14 (word 14) (word 15)

/-- The working vector before the rounds: the chaining value and the initial
value, with the two words of the counter and the mark of the last block. -/
def workingVector (h : Vector v.Word 8) (counter : Nat) (last : Bool) : Vector v.Word 16 :=
  let w : Vector v.Word 16 := h ++ v.iv
  let w := w.set 12 (w[12] ^^^ BitVec.ofNat _ counter)
  let w := w.set 13 (w[13] ^^^ BitVec.ofNat _ (counter >>> v.wordBits))
  if last then w.set 14 (~~~w[14]) else w

def rounds (h : Vector v.Word 8) (input : Input) : Vector v.Word 16 :=
  ((List.range v.rounds).map orderOf).foldl (round (wordsOf v 16 input.block))
    (workingVector h input.counter input.last)

/-- The chaining value and the working vector after one input. -/
def compress (h : Vector v.Word 8) (input : Input) : Vector v.Word 8 × Vector v.Word 16 :=
  let w := rounds h input
  (Vector.ofFn fun i : Fin 8 => h[i] ^^^ w[i.val] ^^^ w[i.val + 8], w)

end StreamDigest.Blake2
