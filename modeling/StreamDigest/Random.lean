import StreamDigest.Bytes.Fixed

/-!
# Random bytes

Keys and nonces are drawn from a generator, which the caller provides and gets
back. How good the bytes are is a matter of the generator.
-/

namespace StreamDigest.Random

variable {G : Type} [RandomGen G]

/-- `n` random bytes. -/
def bytes (gen : G) : Nat → Bytes × G
  | 0 => ([], gen)
  | n + 1 =>
    let (b, gen) := randNat gen 0 255
    let (bs, gen) := bytes gen n
    (UInt8.ofNat b :: bs, gen)

theorem length_bytes (gen : G) (n : Nat) : (bytes gen n).1.length = n := by
  induction n generalizing gen with
  | zero => rfl
  | succ n ih => simp [bytes, ih]

/-- A random array of `n` bytes. -/
def fixed (gen : G) (n : Nat) : FixedBytes n × G :=
  (⟨(bytes gen n).1.toArray, by simp [length_bytes]⟩, (bytes gen n).2)

end StreamDigest.Random
