import StreamDigest.Bytes.Fixed
import StreamDigest.Engine.Backend
import StreamDigest.Poly1305.Limbs

/-!
# The Poly1305 backend

The message is cut into blocks of 16 bytes. Each block, with a one bit behind
its last byte, is added to the accumulator, which is then multiplied by the
clamped half `r` of the key. The tag is the accumulator modulo `p` plus the
other half of the key, modulo `2 ^ 128`.
-/

namespace StreamDigest.Poly1305

def blockLen : Nat := 16

def keyLen : Nat := 32

def tagLen : Nat := 16

abbrev Key := FixedBytes keyLen

/-- The word at byte `i` of a byte string, least significant byte first. -/
def wordAt (bs : Bytes) (i : Nat) : Word := BitVec.ofNat 64 (Bytes.ofLE ((bs.drop i).take 8))

def clamp (t₀ t₁ : Word) : Limbs :=
  ⟨t₀ &&& 0xffc0fffffff, ((t₀ >>> 44) ||| (t₁ <<< 20)) &&& 0xfffffc0ffff,
    (t₁ >>> 24) &&& 0x00ffffffc0f⟩

structure Core where
  r : Limbs
  h : Limbs
  pad : Word × Word
  deriving DecidableEq, Repr

namespace Core

def ofKey (key : Key) : Core :=
  let bs := key.toBytes
  { r := clamp (wordAt bs 0) (wordAt bs 8)
    h := .zero
    pad := (wordAt bs 16, wordAt bs 24) }

/-- A block as limbs, with the bit behind its 128 bits set if `topBit`. -/
def blockLimbs (topBit : Bool) (block : Bytes) : Limbs :=
  let m := Limbs.ofWords (wordAt block 0) (wordAt block 8)
  { m with x₂ := m.x₂ ||| (if topBit then 1 <<< 40 else 0) }

/-- Add a block to the accumulator and multiply. -/
def step (topBit : Bool) (c : Core) (block : Bytes) : Core :=
  { c with h := (c.h.add (blockLimbs topBit block)).mulMod c.r }

def interior (c : Core) (_prior : Nat) (blocks : Bytes) : Core :=
  (Bytes.blocks blockLen blocks).foldl (step true) c

/-- Take in the last block. A short one carries its one bit as a byte of its
own, and the empty message has no block. -/
def final (c : Core) (_prior : Nat) (last : Bytes) : Core :=
  if last.length = blockLen then step true c last
  else if last = [] then c
  else step false c (Bytes.padTo blockLen (last ++ [1]))

def tag (c : Core) : Bytes :=
  let (t₀, t₁) := (c.h.reduce.addCarry (.ofWords c.pad.1 c.pad.2)).toWords
  Bytes.toLE 8 t₀.toNat ++ Bytes.toLE 8 t₁.toNat

/-- Write the tag over the first bytes of the output. -/
def extract (c : Core) (out : Bytes) : Bytes := c.tag ++ out.drop tagLen

def wiped : Core := ⟨.zero, .zero, (0, 0)⟩

end Core

def backend : Backend Key Core where
  algorithm := .poly1305
  blockLen := blockLen
  init key := .ok (Core.ofKey key)
  digestLen _ := tagLen
  interior := Core.interior
  final := Core.final
  extract := Core.extract
  extractsTo n := tagLen ≤ n
  wiped := Core.wiped

end StreamDigest.Poly1305
