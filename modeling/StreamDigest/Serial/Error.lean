import StreamDigest.Base64
import StreamDigest.Decimal.Notation
import StreamDigest.Json.Text
import StreamDigest.Text.Quoted

/-!
# Failures of reading serialized arrays

A value of the wrong type or length is reported together with what was
expected in its place.
-/

namespace StreamDigest.Serial

/-- What a reader expects. -/
inductive Expected where
  /-- One byte. -/
  | byte
  /-- An array of `n` bytes, as a sequence of numbers. -/
  | sequence (n : Nat)
  /-- An array of `n` bytes, as a base64 text. -/
  | base64 (n : Nat)
  deriving DecidableEq, Repr

def Expected.text : Expected → String
  | byte => "u8"
  | sequence n => s!"a sequence of {n} bytes"
  | base64 n => s!"a base64 string of {n} bytes"

/-- What a reader finds. A float is kept as its text. -/
inductive Found where
  | null
  | boolean (b : Bool)
  | integer (n : Int)
  | float (text : String)
  | string (s : String)
  | bytes
  | sequence
  | map
  deriving DecidableEq, Repr

def Found.text : Found → String
  | null => "null"
  | boolean b => s!"boolean `{b}`"
  | integer n => s!"integer `{n}`"
  | float text => s!"floating point `{text}`"
  | string s => "string " ++ Text.quoted s
  | bytes => "byte array"
  | sequence => "sequence"
  | map => "map"

inductive DecodeError where
  | wrongType (found : Found) (expected : Expected)
  | wrongValue (found : Found) (expected : Expected)
  | wrongLength (len : Nat) (expected : Expected)
  | base64 (fault : Base64.Fault)
  | text (fault : Json.TextFault)
  | numberTooLarge
  /-- The text is no JSON. -/
  | malformed
  deriving DecidableEq, Repr

def DecodeError.message : DecodeError → String
  | wrongType found expected => s!"invalid type: {found.text}, expected {expected.text}"
  | wrongValue found expected => s!"invalid value: {found.text}, expected {expected.text}"
  | wrongLength len expected => s!"invalid length {len}, expected {expected.text}"
  | base64 fault => fault.message
  | text fault => fault.message
  | numberTooLarge => "number out of range"
  | malformed => "malformed text"

end StreamDigest.Serial
