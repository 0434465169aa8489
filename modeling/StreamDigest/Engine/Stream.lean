import StreamDigest.Engine.Buffer

/-!
# Streams

A stream turns a backend into an incremental hash or MAC: input arrives in
chunks of any length, whole buffers are compressed as soon as more input is
known to follow, and the digest can be asked for at any time without ending
the stream. The digest depends on the input only and not on how it was cut.

Operations that write into a caller's bytes are of type `InPlace`: they run on
those bytes and, whether they succeed or fail, leave bytes behind.
-/

namespace StreamDigest

/-- An operation on a caller's bytes. A failure leaves bytes behind as well. -/
abbrev InPlace (α : Type) := EStateM Error Bytes α

/-- The bytes written by an operation that starts on `n` zero bytes. -/
def InPlace.onZeros (n : Nat) (op : InPlace Unit) : Except Error Bytes :=
  match op.run (Bytes.zeros n) with
  | .ok _ out => .ok out
  | .error e _ => .error e

/-- A chaining state and the buffer in front of it. -/
structure Stream {π σ : Type} (B : Backend π σ) where
  core : σ
  buffer : Buffer

namespace Stream

variable {π σ : Type} {B : Backend π σ}

/-- A stream before any input. -/
def create (B : Backend π σ) (params : π) : Except Error (Stream B) := do
  let core ← B.init params
  return ⟨core, .empty B.bufferLen⟩

/-- Start over with new parameters, in the same buffer. -/
def reset (s : Stream B) (params : π) : Except Error (Stream B) := do
  let core ← B.init params
  return ⟨core, .empty s.buffer.size⟩

/-- The number of bytes taken in since the stream was created or reset. -/
def total (s : Stream B) : Nat := s.buffer.total

def digestLen (s : Stream B) : Nat := B.digestLen s.core

/-- The end of the input that is not compressed yet. -/
def buffered (s : Stream B) : Except Error Bytes := s.buffer.held

/-- The stream as if it had taken in `total` bytes and held the same ones. -/
def resumeAt (s : Stream B) (total : Nat) : Stream B :=
  { s with buffer := { s.buffer with total } }

/-- The calls that taking in `data` makes, and the buffer after it. -/
def updateCalls (s : Stream B) (data : Bytes) : Except Error (List Call × Buffer) :=
  if s.total + data.length ≤ B.maxInput then s.buffer.push data
  else .error (.lengthOverflow s.total data.length B.maxInput)

/-- Take in `data`. Fails if the input would become longer than the backend
allows. -/
def update (s : Stream B) (data : Bytes) : Except Error (Stream B) := do
  let (calls, buffer) ← s.updateCalls data
  return ⟨B.applyAll s.core calls, buffer⟩

/-- Start over with new parameters where the stream stands. Nothing of it is
wiped before the parameters are accepted. -/
def resetInPlace (params : π) : EStateM Error (Stream B) Unit := do
  let core ← MonadExcept.ofExcept (B.init params)
  modify fun s => ⟨core, .empty s.buffer.size⟩

/-- Take in `data` where the stream stands. The limit is checked first; then
buffer and chaining state change step by step, and the count at the end. -/
def updateInPlace (data : Bytes) : EStateM Error (Stream B) Unit := do
  let s ← get
  if B.maxInput < s.total + data.length then
    throw (.lengthOverflow s.total data.length B.maxInput)
  let total := s.total + data.length
  let room ← MonadExcept.ofExcept (lengthSub s.buffer.size s.buffer.fill)
  if data.length ≤ room then
    let bytes ← MonadExcept.ofExcept
      (Bytes.overwrite s.buffer.bytes s.buffer.fill (s.buffer.fill + data.length) data)
    set (⟨s.core, ⟨bytes, total⟩⟩ : Stream B)
  else
    let (flushed, bytes, rest) ← MonadExcept.ofExcept (s.buffer.flush data)
    set (⟨B.applyAll s.core flushed, ⟨bytes, s.total⟩⟩ : Stream B)
    let (passed, bytes) ← MonadExcept.ofExcept (Buffer.passOn bytes total rest)
    modify fun s => ⟨B.applyAll s.core passed, ⟨bytes, total⟩⟩

def updateAll (s : Stream B) (chunks : List Bytes) : Except Error (Stream B) :=
  chunks.foldlM update s

/-- The calls that finishing into an output of `len` bytes makes, on a copy of
the chaining state. -/
def finishCalls (s : Stream B) (len : Nat) : Except Error (List Call) :=
  if len = s.digestLen then do
    let calls ← s.buffer.close B.blockLen
    return calls ++ [.extract len]
  else
    .error (.outputLength len s.digestLen)

/-- Write the digest of all input over the output, which has to be exactly as
long. The stream stays as it is. -/
def finish (s : Stream B) : InPlace Unit := fun out =>
  match s.finishCalls out.length with
  | .ok calls => .ok () (B.extract (B.applyAll s.core calls) out)
  | .error e => .error e out

def digest (s : Stream B) : Except Error Bytes := s.finish.onZeros s.digestLen

/-- The digest of `input` over the output, in one step. -/
def oneshot (B : Backend π σ) (params : π) (input : Bytes) : InPlace Unit := fun out =>
  match create B params >>= (·.update input) with
  | .ok s => s.finish out
  | .error e => .error e out

/-- The printed form: nothing of the chaining state and the buffered input. -/
def inspect (s : Stream B) : Inspect :=
  .record "StreamingState"
    [("algorithm", .atom B.algorithm.label),
     ("lane_width", .atom B.lanes.label),
     ("total_len", .nat s.total),
     ("buffer_len", .nat s.buffer.size)]

end Stream

end StreamDigest
