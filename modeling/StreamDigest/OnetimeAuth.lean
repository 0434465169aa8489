import StreamDigest.Engine.Stream
import StreamDigest.Poly1305.Core

/-!
# One-time authentication

Poly1305 tags for messages given in one piece or in parts. A key is good for
one message. Verification accepts exactly the tag; a candidate of another
length fails like a wrong one.
-/

namespace StreamDigest

open Poly1305 (Key)

abbrev Mac := FixedBytes Poly1305.tagLen

/-- An authenticator in the course of its message. -/
structure OnetimeAuth where
  stream : Stream Poly1305.backend

namespace OnetimeAuth

def new (key : Key) : Except Error OnetimeAuth := do
  return ⟨← Stream.create Poly1305.backend key⟩

def update (a : OnetimeAuth) (data : Bytes) : Except Error OnetimeAuth := do
  return ⟨← a.stream.update data⟩

def updateAll (a : OnetimeAuth) (parts : List Bytes) : Except Error OnetimeAuth :=
  parts.foldlM update a

def finalize (a : OnetimeAuth) : Except Error Bytes :=
  a.stream.finish.onZeros Poly1305.tagLen

def checkMac (expected computed : Bytes) : Except Error Unit :=
  if expected = computed then .ok () else .error .authentication

/-- Verify a candidate of any length against the message. -/
def verify (a : OnetimeAuth) (candidate : Bytes) : Except Error Unit := do
  let computed ← a.finalize
  if candidate.length = Poly1305.tagLen then checkMac candidate computed
  else throw .authentication

def compute (key : Key) (message : Bytes) : Except Error Bytes := do
  let a ← new key
  let a ← a.update message
  a.finalize

/-- Verify a candidate for a message in one piece. -/
def computeAndVerify (candidate : Bytes) (key : Key) (message : Bytes) : Except Error Unit := do
  let a ← new key
  let a ← a.update message
  a.verify candidate

/-- Write the tag of a message over an output of the tag's length. -/
def authenticate (key : Key) (message : Bytes) : InPlace Unit :=
  Stream.oneshot Poly1305.backend key message

/-- Verify a candidate of the tag's length. -/
def verifyMac (candidate : Mac) (key : Key) (message : Bytes) : Except Error Unit := do
  let computed ← (authenticate key message).onZeros Poly1305.tagLen
  checkMac candidate.toBytes computed

end OnetimeAuth

end StreamDigest
