import StreamDigest.Blake2.Core
import StreamDigest.Engine.Stream

/-!
# BLAKE2 hashing

`hash` writes a digest over an output whose length is the digest length. A
`Hasher v n` is the incremental form, with the digest length in its type.
-/

namespace StreamDigest.Blake2

/-- The digest of `input` over the output, of the output's length, with an
optional key. -/
def hash (v : Variant) (input : Bytes) (key : Option Bytes) : InPlace Unit := fun out =>
  Stream.oneshot (backend v) ((Params.ofDigestLen out.length).withKey (key.getD [])) input out

/-- An incremental hash with digests of `n` bytes. -/
structure Hasher (v : Variant) (n : Nat) where
  stream : Stream (backend v)

namespace Hasher

variable {v : Variant} {n : Nat}

/-- A hasher with full parameters, whose digest length has to be `n`. -/
def ofParams (v : Variant) (n : Nat) (p : Params) : Except Error (Hasher v n) :=
  if p.digestLen = n then do return ⟨← Stream.create (backend v) p⟩
  else .error (.digestMismatch p.digestLen n)

/-- A hasher with an optional key. -/
def new (v : Variant) (n : Nat) (key : Option Bytes) : Except Error (Hasher v n) :=
  ofParams v n ((Params.ofDigestLen n).withKey (key.getD []))

def update (h : Hasher v n) (data : Bytes) : Except Error (Hasher v n) := do
  return ⟨← h.stream.update data⟩

/-- The digest of all input so far; the hasher can go on. -/
def finalize (h : Hasher v n) : Except Error Bytes := h.stream.finish.onZeros n

def absorbed (h : Hasher v n) : Nat := h.stream.total

def digestOf (v : Variant) (n : Nat) (input : Bytes) (key : Option Bytes) :
    Except Error Bytes := do
  let h ← new v n key
  let h ← h.update input
  h.finalize

def inspect (h : Hasher v n) : Inspect :=
  .record "Blake2Hasher" [("output_length", .nat n), ("state", h.stream.inspect)]

end Hasher

end StreamDigest.Blake2
