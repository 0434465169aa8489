import StreamDigest.Bytes.Checked
import StreamDigest.Engine.Backend

/-!
# The buffer of a stream

A buffer has a fixed size and counts the bytes that went into the stream. How
many of its bytes are held is not stored: it is the residue of the count
(`residual`), except that a full buffer stays held until more input shows that
it is not the last. Bytes behind the held ones are left over from earlier
input and mean nothing.

`push` and `close` turn input and the end of input into the calls that become
due on the chaining state. They look at lengths and move bytes; they know
nothing of the algorithm.
-/

namespace StreamDigest

/-- The bytes held in a buffer of `size` bytes after `total` bytes of input: a
positive multiple of `size` leaves a full buffer and not an empty one. -/
def residual (total size : Nat) : Nat :=
  if 0 < total ∧ total % size = 0 then size else total % size

/-- The residue for blocks of a length that a backend may set: there is no remainder
by zero. -/
def residualChecked (total size : Nat) : Except Error Nat :=
  if 0 < size then .ok (residual total size) else .error .outOfRange

/-- A buffer of `bytes.length` bytes after `total` bytes of input. -/
structure Buffer where
  bytes : Bytes
  total : Nat
  deriving DecidableEq, Repr

namespace Buffer

def empty (size : Nat) : Buffer := ⟨Bytes.zeros size, 0⟩

def size (b : Buffer) : Nat := b.bytes.length

def fill (b : Buffer) : Nat := residual b.total b.size

/-- The held bytes: the end of the input that is not compressed yet. -/
def held (b : Buffer) : Except Error Bytes := do
  let (held, _) ← Bytes.cut b.fill b.bytes
  return held

/-- Complete a partly filled buffer from the front of `data` and hand it on as
a whole. An empty buffer is left alone. Returns the call, the bytes of the
buffer and the rest of `data`. -/
def flush (b : Buffer) (data : Bytes) : Except Error (List Call × Bytes × Bytes) :=
  if 0 < b.fill then do
    let room ← lengthSub b.size b.fill
    let (head, rest) ← Bytes.cut room data
    let bytes ← Bytes.overwrite b.bytes b.fill b.size head
    let prior ← lengthSub b.total b.fill
    return ([.interior prior bytes], bytes, rest)
  else
    return ([], b.bytes, data)

/-- Hand on the whole buffers in `rest`, the end of an input of `total` bytes,
and hold the remainder back. `bytes` is what the buffer contains. -/
def passOn (bytes : Bytes) (total : Nat) (rest : Bytes) : Except Error (List Call × Bytes) := do
  let bulkLen ← lengthSub rest.length (residual rest.length bytes.length)
  let (bulk, tail) ← Bytes.cut bulkLen rest
  let bytes ← Bytes.overwrite bytes 0 tail.length tail
  if bulk.isEmpty then
    return ([], bytes)
  else
    let prior ← lengthSub total rest.length
    return ([.interior prior bulk], bytes)

/-- Take in `data`. If it fits behind the held bytes it is only stored;
otherwise the buffer is completed and handed on, then the whole buffers of the
rest, and what remains, at least one byte, is held. -/
def push (b : Buffer) (data : Bytes) : Except Error (List Call × Buffer) := do
  let total := b.total + data.length
  let room ← lengthSub b.size b.fill
  if data.length ≤ room then
    let bytes ← Bytes.overwrite b.bytes b.fill (b.fill + data.length) data
    return ([], ⟨bytes, total⟩)
  else
    let (flushed, bytes, rest) ← b.flush data
    let (passed, bytes) ← passOn bytes total rest
    return (flushed ++ passed, ⟨bytes, total⟩)

/-- The calls that end the input: the held bytes in blocks of `blockLen` bytes,
the last of them, full or not, as the final one. -/
def close (b : Buffer) (blockLen : Nat) : Except Error (List Call) := do
  let held ← b.held
  let lastLen ← residualChecked held.length blockLen
  let wholeLen ← lengthSub held.length lastLen
  let (whole, last) ← Bytes.cut wholeLen held
  let finalPrior ← lengthSub b.total last.length
  if whole.isEmpty then
    return [.final finalPrior last]
  else
    let prior ← lengthSub b.total held.length
    return [.interior prior whole, .final finalPrior last]

end Buffer

end StreamDigest
