import StreamDigest.Blake2.Compress
import StreamDigest.Blake2.Params
import StreamDigest.Engine.Backend

/-!
# The BLAKE2 backend

A keyed core holds its key block back until it is known whether more follows:
the key block goes into the first compression, and if there is no message it
is the last block itself. What a call feeds to the compression function is
computed first, as a list of inputs (`Core.interiorInputs`,
`Core.finalInputs`), and then absorbed.
-/

namespace StreamDigest.Blake2

structure Core (v : Variant) where
  /-- The working vector that the last compression ended on. -/
  work : Vector v.Word 16
  /-- The chaining value. -/
  chain : Vector v.Word 8
  digestLen : Nat
  keyed : Bool
  /-- The key block, as long as it is not compressed. -/
  pendingKey : Option Bytes
  deriving DecidableEq, Repr

namespace Core

variable {v : Variant}

def ofParams (v : Variant) (p : Params) : Except Error (Core v) := do
  p.check v
  return {
    work := Vector.replicate 16 0
    chain := v.iv.zipWith (· ^^^ ·) (wordsOf v 8 (p.block v))
    digestLen := p.digestLen
    keyed := (p.keyBlock v).isSome
    pendingKey := p.keyBlock v }

/-- The bytes that the counter is ahead of the message. -/
def counterOffset (c : Core v) : Nat := if c.keyed then v.blockLen else 0

/-- The pending key block as an input. -/
def keyInput (c : Core v) (last : Bool) : List Input :=
  c.pendingKey.toList.map fun key => ⟨key, v.blockLen, last⟩

/-- What whole blocks after `prior` bytes of message feed to the compression
function: the pending key block, then each block with its counter. -/
def interiorInputs (c : Core v) (prior : Nat) (blocks : Bytes) : List Input :=
  c.keyInput false ++ (Bytes.blocks v.blockLen blocks).mapIdx fun i block =>
    ⟨block, c.counterOffset + prior + (i + 1) * v.blockLen, false⟩

/-- What the end of the message feeds to the compression function: the pending
key block and the last block filled up with zeros. A pending key block with no
message behind it is the last block. -/
def finalInputs (c : Core v) (prior : Nat) (last : Bytes) : List Input :=
  if c.pendingKey.isSome ∧ last = [] then c.keyInput true
  else
    c.keyInput false ++
      [⟨Bytes.padTo v.blockLen last, c.counterOffset + prior + last.length, true⟩]

def step (c : Core v) (input : Input) : Core v :=
  let (chain, work) := compress c.chain input
  { c with chain, work }

/-- Compress inputs in order. No key block is pending afterwards. -/
def absorb (c : Core v) (inputs : List Input) : Core v :=
  { inputs.foldl step c with pendingKey := none }

def interior (c : Core v) (prior : Nat) (blocks : Bytes) : Core v :=
  c.absorb (c.interiorInputs prior blocks)

def final (c : Core v) (prior : Nat) (last : Bytes) : Core v :=
  c.absorb (c.finalInputs prior last)

/-- The first bytes of the chaining value, as many as the output has. -/
def extract (c : Core v) (out : Bytes) : Bytes := (bytesOf c.chain).take out.length

def wiped (v : Variant) : Core v where
  work := Vector.replicate 16 0
  chain := Vector.replicate 8 0
  digestLen := 0
  keyed := false
  pendingKey := none

end Core

def backend (v : Variant) : Backend Params (Core v) where
  algorithm := v.algorithm
  blockLen := v.blockLen
  maxInput := v.maxInput
  init := Core.ofParams v
  digestLen := Core.digestLen
  interior := Core.interior
  final := Core.final
  extract := Core.extract
  extractsTo n := n ≤ v.maxLen
  wiped := Core.wiped v

end StreamDigest.Blake2
