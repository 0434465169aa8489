import StreamDigest.Bytes.Fixed
import StreamDigest.Json.Number
import StreamDigest.Json.Reader
import StreamDigest.Serial.Error

/-!
# Serialized byte arrays

A byte array is serialized as a list of numbers or as a base64 text. The first
form also reads a byte string as it is, and a JSON string by its bytes. An
array of `n` bytes is read from exactly `n` bytes.
-/

namespace StreamDigest.Serial

inductive Form where
  | sequence
  | base64
  deriving DecidableEq, Repr

/-- What the form expects for an array of `n` bytes. -/
def Form.expected (n : Nat) : Form → Expected
  | sequence => .sequence n
  | base64 => .base64 n

/-! ## Writing -/

/-- The text of bytes that are characters of ASCII. -/
def asciiText (bs : Bytes) : String := String.ofList (bs.map fun b => Char.ofNat b.toNat)

def serialize {n : Nat} (a : FixedBytes n) : Form → String
  | .sequence => "[" ++ ",".intercalate (a.toBytes.map fun b => toString b.toNat) ++ "]"
  | .base64 => "\"" ++ asciiText (Base64.encode a.toBytes) ++ "\""

/-! ## Reading -/

def ofBytes (n : Nat) (expected : Expected) (bs : Bytes) : Except DecodeError (FixedBytes n) :=
  match FixedBytes.ofBytes? n bs with
  | some a => .ok a
  | none => .error (.wrongLength bs.length expected)

/-- Collect the elements of a sequence, each of them a byte or a fault, behind
`taken`. An element is read before its place is looked for: the first fault
counts, unless the sequence is already too long before it. -/
def collect (n : Nat) (taken : Bytes) :
    List (Except DecodeError UInt8) → Except DecodeError Bytes
  | [] => .ok taken
  | .error e :: _ => .error e
  | .ok b :: rest =>
    if n ≤ taken.length then .error (.wrongLength (taken.length + 1) (.sequence n))
    else collect n (taken ++ [b]) rest

def ofElements (n : Nat) (elements : List (Except DecodeError UInt8)) :
    Except DecodeError (FixedBytes n) := do
  let bs ← collect n [] elements
  ofBytes n (.sequence n) bs

/-- What a JSON value is to a reader that wants something else. -/
def found : Json.Value → Except DecodeError Found
  | .null => .ok .null
  | .boolean b => .ok (.boolean b)
  | .number x =>
    match x.value with
    | none => .error .numberTooLarge
    | some (.integer n) => .ok (.integer n)
    | some (.float x) => .ok (.float (Decimal.floatText x))
  | .string pieces =>
    match Json.textOfPieces pieces with
    | .ok s => .ok (.string s)
    | .error fault => .error (.text fault)
  | .array _ => .ok .sequence
  | .object _ _ => .ok .map

/-- Report a JSON value where something else is expected. -/
def reject {α : Type} (value : Json.Value) (expected : Expected) : Except DecodeError α := do
  let found ← found value
  throw (.wrongType found expected)

/-- A JSON value as one byte. -/
def byteOf (value : Json.Value) : Except DecodeError UInt8 := do
  match ← found value with
  | .integer n =>
    if 0 ≤ n ∧ n < 256 then return UInt8.ofNat n.toNat
    else throw (.wrongValue (.integer n) .byte)
  | other => throw (.wrongType other .byte)

def ofBase64 (n : Nat) (text : Bytes) : Except DecodeError (FixedBytes n) :=
  match Base64.decode text with
  | .ok bs => ofBytes n (.base64 n) bs
  | .error fault => .error (.base64 fault)

def ofValue (n : Nat) : Form → Json.Value → Except DecodeError (FixedBytes n)
  | .sequence, .string pieces => ofBytes n (.sequence n) (Json.bytesOfPieces pieces)
  | .sequence, .array items => ofElements n (items.map byteOf)
  | .sequence, value => reject value (.sequence n)
  | .base64, .string pieces =>
    match Json.textOfPieces pieces with
    | .ok _ => ofBase64 n (Json.bytesOfPieces pieces)
    | .error fault => .error (.text fault)
  | .base64, value => reject value (.base64 n)

/-- The array that a JSON text stands for. The text is parsed as a whole before its elements
are looked at. A reader that takes the elements as they come reports the same, except on a
text that is no JSON: there it may report an element, or one element too many, where the
text is still in order, and here the text is malformed in any case. -/
def ofJson (n : Nat) (form : Form) (text : String) : Except DecodeError (FixedBytes n) :=
  match Json.parse text with
  | some value => ofValue n form value
  | none => .error .malformed

/-- The array that a byte string stands for. Base64 text is never given so. -/
def ofByteString (n : Nat) (bs : Bytes) : Form → Except DecodeError (FixedBytes n)
  | .sequence => ofBytes n (.sequence n) bs
  | .base64 => .error (.wrongType .bytes (.base64 n))

/-- A map stands for no array. -/
def ofMap (n : Nat) (form : Form) : Except DecodeError (FixedBytes n) :=
  .error (.wrongType .map (form.expected n))

end StreamDigest.Serial
