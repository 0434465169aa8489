import StreamDigest.Bytes.Basic
import StreamDigest.Error

/-!
# Checked slices

Cutting, overwriting and subtracting where the bounds are checked: an
operation that would leave its byte string, or go below zero, breaks off with
`Error.outOfRange`. The streaming engine is written with these, so that
`outOfRange` never coming out of it is a statement about the engine.
-/

namespace StreamDigest

namespace Bytes

def cut (n : Nat) (bs : Bytes) : Except Error (Bytes × Bytes) :=
  if n ≤ bs.length then .ok (bs.take n, bs.drop n) else .error .outOfRange

/-- `bs` with the bytes from `start` up to `stop` replaced by `src`, which has
to be just as long. -/
def overwrite (bs : Bytes) (start stop : Nat) (src : Bytes) : Except Error Bytes :=
  if start ≤ stop ∧ stop ≤ bs.length ∧ src.length = stop - start then
    .ok (bs.take start ++ src ++ bs.drop stop)
  else .error .outOfRange

end Bytes

def lengthSub (a b : Nat) : Except Error Nat :=
  if b ≤ a then .ok (a - b) else .error .outOfRange

end StreamDigest
