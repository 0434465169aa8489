import StreamDigest.Blake2.Variant
import StreamDigest.Bytes.Fixed

/-!
# BLAKE2 parameters

A parameter set is a digest length with an optional key, salt and
personalization; empty means absent. Nothing is checked when it is put
together. `Params.check` compares it with the bounds of a variant, in the
order digest, key, salt, personalization, and `Params.block` lays it out as
the parameter block that goes into the initial chaining value.
-/

namespace StreamDigest.Blake2

structure Params where
  digestLen : Nat := 0
  key : Bytes := []
  salt : Bytes := []
  personal : Bytes := []
  deriving DecidableEq, Repr

namespace Params

def ofDigestLen (digestLen : Nat) : Params := { digestLen }

/-- Set the key; the empty key means unkeyed. -/
def withKey (p : Params) (key : Bytes) : Params := { p with key }

def withSalt (p : Params) (salt : Bytes) : Params := { p with salt }

def withPersonal (p : Params) (personal : Bytes) : Params := { p with personal }

/-- Fails with the first bound of the variant that the parameters break. -/
def check (v : Variant) (p : Params) : Except Error Unit :=
  if p.digestLen = 0 ∨ v.maxLen < p.digestLen then
    .error (.digestLength v.algorithm p.digestLen v.maxLen)
  else if v.maxLen < p.key.length then
    .error (.keyLength v.algorithm p.key.length v.maxLen)
  else if p.salt ≠ [] ∧ p.salt.length ≠ v.fieldLen then
    .error (.saltLength v.algorithm p.salt.length v.fieldLen)
  else if p.personal ≠ [] ∧ p.personal.length ≠ v.fieldLen then
    .error (.personalLength v.algorithm p.personal.length v.fieldLen)
  else .ok ()

/-- The parameter block: digest length, key length, fanout and depth of
sequential hashing, zeros up to the middle, salt and personalization. It has
`maxLen` bytes if the parameters keep the bounds. -/
def block (v : Variant) (p : Params) : Bytes :=
  Bytes.padTo (4 * v.wordLen) [UInt8.ofNat p.digestLen, UInt8.ofNat p.key.length, 1, 1] ++
    Bytes.padTo v.fieldLen p.salt ++ Bytes.padTo v.fieldLen p.personal

/-- The key as a block of its own, or nothing when unkeyed. -/
def keyBlock (v : Variant) (p : Params) : Option Bytes :=
  if p.key = [] then none else some (Bytes.padTo v.blockLen p.key)

/-- The printed form, which shows of the key only its length. -/
def inspect (p : Params) : Inspect :=
  .record "Params"
    [("digest_len", .nat p.digestLen),
     ("key_len", .nat p.key.length),
     ("salt", FixedBytes.inspectBytes p.salt),
     ("personal", FixedBytes.inspectBytes p.personal)]

end Params

end StreamDigest.Blake2
