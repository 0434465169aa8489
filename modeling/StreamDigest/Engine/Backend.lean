import StreamDigest.Algorithm
import StreamDigest.Bytes.Basic
import StreamDigest.Error

/-!
# Compression backends

A backend is a compression function with its chaining state: how a state is
made from parameters, how it takes in blocks and the last block, and how the
digest is read off. The engine in `Stream.lean` runs any backend; a backend
never sees the buffer.

The engine passes `interior` a non-empty whole number of blocks that more
input follows, and `final` the last bytes of the message, at most one block,
none only if the message is empty. `prior` is the number of message bytes
before those passed. Outside these terms `interior`, `final` and `extract` are
total but mean nothing; `finalChecked` and `extractChecked` break off there.
-/

namespace StreamDigest

/-- A compression function with parameters `π` and chaining states `σ`. -/
structure Backend (π σ : Type) where
  algorithm : Algorithm
  lanes : LaneWidth := .m32
  /-- Bytes in one compression block. -/
  blockLen : Nat := algorithm.blockLen
  /-- Bytes in the buffer of a stream, a positive multiple of `blockLen`. -/
  bufferLen : Nat := algorithm.bufferLen lanes
  /-- The longest message in bytes, at most `2 ^ 64 - 1`. -/
  maxInput : Nat := 0xffff_ffff_ffff_ffff
  init : π → Except Error σ
  digestLen : σ → Nat
  /-- Take in whole blocks that are not the last; a rest is ignored. -/
  interior : σ → Nat → Bytes → σ
  /-- Take in the last block, with the padding of the algorithm. -/
  final : σ → Nat → Bytes → σ
  /-- Write the digest over an output. -/
  extract : σ → Bytes → Bytes
  /-- Can `extract` write over an output of this length? -/
  extractsTo : Nat → Bool
  /-- The state with every field wiped. -/
  wiped : σ

/-- A call that the engine makes on a chaining state. -/
inductive Call where
  | interior (prior : Nat) (blocks : Bytes)
  | final (prior : Nat) (last : Bytes)
  | extract (len : Nat)
  deriving DecidableEq, Repr

namespace Backend

variable {π σ : Type} (B : Backend π σ)

/-- The same backend for vectors of another width: only the buffer differs. -/
def withLanes (lanes : LaneWidth) : Backend π σ :=
  { B with lanes, bufferLen := B.algorithm.bufferLen lanes }

/-- The effect of a call on the chaining state. Reading the digest has none. -/
def apply (s : σ) : Call → σ
  | .interior prior blocks => B.interior s prior blocks
  | .final prior last => B.final s prior last
  | .extract _ => s

/-- The effect of calls in order. -/
def applyAll (s : σ) (calls : List Call) : σ := calls.foldl B.apply s

/-- Take in the last block, which has to fit one compression block. -/
def finalChecked (s : σ) (prior : Nat) (last : Bytes) : Except Error σ :=
  if last.length ≤ B.blockLen then .ok (B.final s prior last) else .error .outOfRange

/-- Write the digest over an output that the backend can write to. -/
def extractChecked (s : σ) (out : Bytes) : Except Error Bytes :=
  if B.extractsTo out.length then .ok (B.extract s out) else .error .outOfRange

end Backend

end StreamDigest
