import StreamDigest.Bytes.Basic
import StreamDigest.Json.Value

/-!
# What written strings stand for

Two 16-bit units that form a pair stand for one character. A unit that is half
of a pair without the other half is no character: read as bytes
(`bytesOfPieces`) it is encoded like one all the same, read as text
(`textOfPieces`) it is a fault.
-/

namespace StreamDigest.Json

/-- The encoding of a code point in one to four bytes. -/
def encodePoint (n : Nat) : Bytes :=
  if n < 0x80 then [UInt8.ofNat n]
  else if n < 0x800 then [UInt8.ofNat (0xc0 + n / 64), UInt8.ofNat (0x80 + n % 64)]
  else if n < 0x10000 then
    [UInt8.ofNat (0xe0 + n / 4096), UInt8.ofNat (0x80 + n / 64 % 64), UInt8.ofNat (0x80 + n % 64)]
  else
    [UInt8.ofNat (0xf0 + n / 262144), UInt8.ofNat (0x80 + n / 4096 % 64),
      UInt8.ofNat (0x80 + n / 64 % 64), UInt8.ofNat (0x80 + n % 64)]

/-- The first half of a pair. -/
def isLeading (u : Nat) : Bool := 0xd800 ≤ u && u ≤ 0xdbff

def isTrailing (u : Nat) : Bool := 0xdc00 ≤ u && u ≤ 0xdfff

def pairPoint (u₁ u₂ : Nat) : Nat := 0x10000 + (u₁ - 0xd800) * 1024 + (u₂ - 0xdc00)

/-- The code points that a string stands for, halves of pairs among them. -/
def pointsOf : List Piece → List Nat
  | .unit u₁ :: .unit u₂ :: rest =>
    if isLeading u₁ && isTrailing u₂ then pairPoint u₁ u₂ :: pointsOf rest
    else u₁ :: pointsOf (.unit u₂ :: rest)
  | .unit u :: rest => u :: pointsOf rest
  | .char c :: rest => c.toNat :: pointsOf rest
  | [] => []

def bytesOfPieces (pieces : List Piece) : Bytes := (pointsOf pieces).flatMap encodePoint

/-- What keeps a string from being text. -/
inductive TextFault where
  /-- A unit is half of a pair and the unit beside it not the other half. -/
  | unpaired
  /-- The first half of a pair, and no unit behind it. -/
  | unfinished
  deriving DecidableEq, Repr

def TextFault.message : TextFault → String
  | unpaired => "lone leading surrogate in hex escape"
  | unfinished => "unexpected end of hex escape"

/-- The first fault of a string. -/
def textFault? : List Piece → Option TextFault
  | .unit u₁ :: .unit u₂ :: rest =>
    if isTrailing u₁ then some .unpaired
    else if isLeading u₁ then
      if isTrailing u₂ then textFault? rest else some .unpaired
    else textFault? (.unit u₂ :: rest)
  | .unit u :: rest =>
    if isTrailing u then some .unpaired
    else if isLeading u then some .unfinished
    else textFault? rest
  | .char _ :: rest => textFault? rest
  | [] => none

/-- The text that a string stands for. -/
def textOfPieces (pieces : List Piece) : Except TextFault String :=
  match textFault? pieces with
  | some fault => .error fault
  | none => .ok (String.ofList ((pointsOf pieces).map Char.ofNat))

end StreamDigest.Json
