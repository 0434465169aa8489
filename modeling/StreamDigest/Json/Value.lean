/-!
# JSON values

Values as they are written: a number keeps its digits and a string its
escapes, because what they stand for is decided only where they are used. A
number may be out of range, and an escaped unit may be half of a pair.
-/

namespace StreamDigest.Json

/-- A piece of a written string. -/
inductive Piece where
  /-- A character, written plainly or by a letter behind a backslash. -/
  | char (c : Char)
  /-- A 16-bit unit, written by four hexadecimal digits. -/
  | unit (u : Nat)
  deriving DecidableEq, Repr

/-- A written number: sign, digits before the point, digits behind it and
exponent, the last two if they are there. -/
structure Numeral where
  negative : Bool
  whole : List Nat
  fraction : Option (List Nat)
  exponent : Option (Bool × List Nat)
  deriving DecidableEq, Repr

inductive Value where
  | null
  | boolean (b : Bool)
  | number (n : Numeral)
  | string (pieces : List Piece)
  | array (items : List Value)
  | object (names : List (List Piece)) (values : List Value)
  deriving Repr

end StreamDigest.Json
