import StreamDigest.Algorithm
import StreamDigest.Inspect
import StreamDigest.Text.Quoted

/-!
# Failures

Every fallible operation returns an `Error`, which names the cause. The
wording is in `Error.message` alone; `Error.inspect` is the printed form,
which keeps apart length overflows, allocation and authentication failures
and prints every other cause as a message.
-/

namespace StreamDigest

inductive Error where
  /-- A failure that is known by its text only. -/
  | custom (text : String)
  /-- No room for a buffer of `bytes` bytes. -/
  | allocation (bytes : Nat)
  /-- `requested` more bytes after `total` would pass the limit. -/
  | lengthOverflow (total requested limit : Nat)
  /-- A tag did not verify. -/
  | authentication
  /-- A byte string is not as long as the array it is to become. -/
  | size (expected found : Nat)
  | digestLength (algorithm : Algorithm) (len max : Nat)
  | keyLength (algorithm : Algorithm) (len max : Nat)
  | saltLength (algorithm : Algorithm) (len expected : Nat)
  | personalLength (algorithm : Algorithm) (len expected : Nat)
  /-- An output buffer is not as long as the digest. -/
  | outputLength (len expected : Nat)
  /-- Parameters ask for another digest length than the hasher gives. -/
  | digestMismatch (len expected : Nat)
  /-- A ciphertext is too short to carry its tag. -/
  | ciphertextLength (len tagLen : Nat)
  /-- The counter has no blocks left for `bytes` bytes. -/
  | keystreamExhausted (bytes : Nat)
  /-- An access outside a block, a buffer or an output, a difference below zero or
  a remainder by zero: the call breaks off. -/
  | outOfRange
  deriving DecidableEq, Repr

namespace Error

/-- The text of a failure. All that `inspect` prints as a message, `custom` apart, goes out
with the place that reports it behind this text, which is left out here. Each constructor
is reported in one place, so equal failures have equal full texts. -/
def message : Error → String
  | custom text => text
  | allocation bytes => s!"failed to allocate {bytes} bytes for the block buffer"
  | lengthOverflow total requested limit =>
    s!"length overflow: {total} bytes absorbed, {requested} more requested, limit is {limit}"
  | authentication => "authentication failure"
  | size expected found => s!"Invalid size: expected {expected} found {found}"
  | digestLength a len max =>
    s!"invalid {a.name} digest length: {len}, should be between 1 and {max}"
  | keyLength a len max => s!"invalid {a.name} key length: {len} max: {max}"
  | saltLength a len expected => s!"invalid {a.name} salt length: {len}, expected {expected}"
  | personalLength a len expected =>
    s!"invalid {a.name} personalization length: {len}, expected {expected}"
  | outputLength len expected => s!"invalid output length {len}, expected {expected}"
  | digestMismatch len expected =>
    s!"digest length {len} does not match output length {expected}"
  | ciphertextLength len tagLen =>
    s!"ciphertext length {len} is shorter than the {tagLen}-byte tag"
  | keystreamExhausted bytes => s!"aes256gcm keystream exhausted for {bytes} bytes"
  | outOfRange => "access out of range"

/-- The printed form of a failure. -/
def inspect : Error → Inspect
  | allocation bytes => .tuple "AllocationFailure" [.nat bytes]
  | lengthOverflow total requested limit =>
    .record "LengthOverflow"
      [("total", .nat total), ("requested", .nat requested), ("limit", .nat limit)]
  | authentication => .atom "AuthenticationFailure"
  | e => .tuple "Message" [.atom (Text.quoted e.message)]

end Error

end StreamDigest
