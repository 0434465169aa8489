import StreamDigest.Bytes.Endian
import StreamDigest.Bytes.Fixed
import StreamDigest.Engine.Backend
import StreamDigest.Ghash.Field

/-!
# The GHASH backend

The universal hash that GCM authenticates with: each block of 16 bytes is
added to the accumulator, which is then multiplied by the hash key. A short
last block is filled up with zeros.
-/

namespace StreamDigest.Ghash

/-- Bytes in a block, a hash key and a digest. -/
def blockLen : Nat := 16

abbrev Key := FixedBytes blockLen

/-- A block as a field element, most significant byte first. -/
def elementOf (block : Bytes) : Element := BitVec.ofNat 128 (Bytes.ofBE block)

structure Core where
  h : Element
  y : Element
  deriving DecidableEq, Repr

namespace Core

def ofKey (key : Key) : Core := ⟨elementOf key.toBytes, 0⟩

/-- Add a block to the accumulator and multiply. -/
def step (c : Core) (block : Bytes) : Core := { c with y := mul (c.y ^^^ elementOf block) c.h }

def interior (c : Core) (_prior : Nat) (blocks : Bytes) : Core :=
  (Bytes.blocks blockLen blocks).foldl step c

/-- Take in the last block; the empty message has none. -/
def final (c : Core) (_prior : Nat) (last : Bytes) : Core :=
  if last = [] then c else c.step (Bytes.padTo blockLen last)

/-- The accumulator, most significant byte first. -/
def extract (c : Core) (_out : Bytes) : Bytes := Bytes.toBE blockLen c.y.toNat

def wiped : Core := ⟨0, 0⟩

end Core

def backend : Backend Key Core where
  algorithm := .ghash
  blockLen := blockLen
  init key := .ok (Core.ofKey key)
  digestLen _ := blockLen
  interior := Core.interior
  final := Core.final
  extract := Core.extract
  extractsTo n := n = blockLen
  wiped := Core.wiped

end StreamDigest.Ghash
