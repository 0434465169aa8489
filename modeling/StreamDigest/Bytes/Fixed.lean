import StreamDigest.Bytes.Basic
import StreamDigest.Error

/-!
# Byte arrays of fixed length

Keys, nonces, tags and blocks have their length in the type.
-/

namespace StreamDigest

abbrev FixedBytes (n : Nat) := Vector UInt8 n

namespace FixedBytes

def zero (n : Nat) : FixedBytes n := Vector.replicate n 0

def ofBytes? (n : Nat) (bs : Bytes) : Option (FixedBytes n) :=
  if h : bs.length = n then some ⟨bs.toArray, by simp [h]⟩ else none

/-- The array with the given bytes, which have to be exactly `n`. -/
def ofBytes (n : Nat) (bs : Bytes) : Except Error (FixedBytes n) :=
  match ofBytes? n bs with
  | some a => .ok a
  | none => .error (.size n bs.length)

def toBytes {n : Nat} (a : FixedBytes n) : Bytes := a.toList

def modify {n : Nat} (f : UInt8 → UInt8) (a : FixedBytes n) : FixedBytes n := a.map f

def xor {n : Nat} (a b : FixedBytes n) : FixedBytes n := a.zipWith (· ^^^ ·) b

def inspectBytes (bs : Bytes) : Inspect := .list (bs.map fun b => .nat b.toNat)

def inspect {n : Nat} (a : FixedBytes n) : Inspect :=
  .tuple "StackByteArray" [inspectBytes a.toBytes]

end FixedBytes

end StreamDigest
