import StreamDigest.Bytes.Basic

/-!
# Base64

The standard alphabet with padding. Three bytes become four symbols of six
bits; one or two bytes left over become two or three symbols, filled up to
four with the padding byte. Decoding accepts the padded form only: no blanks,
no missing padding, no bits set behind the last byte. Offsets in errors count
bytes of the text.
-/

namespace StreamDigest.Base64

def pad : UInt8 := 61

/-- The symbol for a number below 64. -/
def symbol (n : Nat) : UInt8 :=
  if n < 26 then UInt8.ofNat (65 + n)
  else if n < 52 then UInt8.ofNat (97 + (n - 26))
  else if n < 62 then UInt8.ofNat (48 + (n - 52))
  else if n = 62 then 43
  else 47

def value? (b : UInt8) : Option Nat :=
  let n := b.toNat
  if 65 ≤ n ∧ n ≤ 90 then some (n - 65)
  else if 97 ≤ n ∧ n ≤ 122 then some (n - 97 + 26)
  else if 48 ≤ n ∧ n ≤ 57 then some (n - 48 + 52)
  else if n = 43 then some 62
  else if n = 47 then some 63
  else none

def isSymbol (b : UInt8) : Bool := (value? b).isSome

def encode : Bytes → Bytes
  | [] => []
  | [a] => [symbol (a.toNat / 4), symbol (a.toNat % 4 * 16), pad, pad]
  | [a, b] =>
    [symbol (a.toNat / 4), symbol (a.toNat % 4 * 16 + b.toNat / 16),
      symbol (b.toNat % 16 * 4), pad]
  | a :: b :: c :: rest =>
    symbol (a.toNat / 4) :: symbol (a.toNat % 4 * 16 + b.toNat / 16) ::
      symbol (b.toNat % 16 * 4 + c.toNat / 64) :: symbol (c.toNat % 64) :: encode rest

/-- What keeps a text from being decoded. -/
inductive Fault where
  /-- A byte that may not stand at this offset. -/
  | invalidByte (byte : UInt8) (offset : Nat)
  /-- One symbol is left over behind whole groups of four. -/
  | loneSymbol
  /-- The last symbol has bits set that belong to no byte. -/
  | invalidLastSymbol (byte : UInt8) (offset : Nat)
  | invalidPadding
  deriving DecidableEq, Repr

def Fault.message : Fault → String
  | invalidByte byte offset => s!"Invalid byte {byte.toNat}, offset {offset}."
  | loneSymbol => "Encoded text cannot have a 6-bit remainder."
  | invalidLastSymbol byte offset => s!"Invalid last symbol {byte.toNat}, offset {offset}."
  | invalidPadding => "Invalid padding"

/-- The bytes of a list of 6-bit numbers; `none` if bits are set behind the
last byte. -/
def bytesOfValues : List Nat → Option Bytes
  | a :: b :: c :: d :: rest => do
    let bs ← bytesOfValues rest
    return UInt8.ofNat (a * 4 + b / 16) :: UInt8.ofNat (b % 16 * 16 + c / 4) ::
      UInt8.ofNat (c % 4 * 64 + d) :: bs
  | [a, b, c] =>
    if c % 4 = 0 then some [UInt8.ofNat (a * 4 + b / 16), UInt8.ofNat (b % 16 * 16 + c / 4)]
    else none
  | [a, b] => if b % 16 = 0 then some [UInt8.ofNat (a * 4 + b / 16)] else none
  | [_] | [] => some []

/-- The bytes behind the symbols at the start of a text. -/
def trailer (text : Bytes) : Bytes := text.dropWhile isSymbol

/-- May padding like `padding` stand behind `len` symbols? It fills up a group
that has two or three, and nothing else follows. -/
def paddingFits (len : Nat) (padding : Bytes) : Bool :=
  2 ≤ len % 4 && padding.all (· == pad) && len % 4 + padding.length ≤ 4

/-- Fails if the number of bytes leaves a lone symbol. A last byte that is
neither symbol nor padding is reported in its place. -/
def checkRemainder (text : Bytes) : Except Fault Unit :=
  if text.length % 4 = 1 then
    match text.getLast? with
    | some last =>
      if last ≠ pad ∧ isSymbol last = false then .error (.invalidByte last (text.length - 1))
      else .error .loneSymbol
    | none => .error .loneSymbol
  else .ok ()

/-- Fails at the first byte behind the symbols, unless padding starts there. -/
def checkTrailer (text : Bytes) : Except Fault Unit :=
  let symbols := text.takeWhile isSymbol
  match trailer text with
  | [] => .ok ()
  | b :: rest =>
    if b = pad ∧ paddingFits symbols.length (b :: rest) then .ok ()
    else .error (.invalidByte b symbols.length)

/-- The bytes of a text, as the standard engine of the `base64` library documents its
decoding: the padding is canonical, neither missing nor in excess, and the bits behind the
last byte are zero. -/
def decode (text : Bytes) : Except Fault Bytes := do
  checkRemainder text
  checkTrailer text
  if text.length % 4 ≠ 0 then throw .invalidPadding
  let symbols := text.takeWhile isSymbol
  match bytesOfValues (symbols.filterMap value?) with
  | some bs => return bs
  | none => throw (.invalidLastSymbol (symbols.getLastD 0) (symbols.length - 1))

end StreamDigest.Base64
