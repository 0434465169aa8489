import StreamDigest.Text.Extending
import StreamDigest.Text.Ignorable
import StreamDigest.Text.Unprintable

/-!
# Quoted text

Texts inside printed states and error messages stand in double quotes.
Quotes, backslashes and the common control characters are written with a
backslash and a letter, other characters that have no printed form of their
own by their code point in hexadecimal; everything else stands for itself.
-/

namespace StreamDigest.Text

def inRanges (ranges : List (Nat × Nat)) (n : Nat) : Bool :=
  ranges.any fun r => r.1 ≤ n && n ≤ r.2

/-- Has the character a printed form at all? -/
def isPrintable (c : Char) : Bool :=
  !inRanges unprintableBasic c.toNat && !inRanges unprintableBeyond c.toNat

/-- Does the character extend the one before it? -/
def extendsPrevious (c : Char) : Bool :=
  inRanges extendingBasic c.toNat || inRanges extendingBeyond c.toNat

/-- May a reader show nothing for the character? -/
def isIgnorable (c : Char) : Bool := inRanges ignorable c.toNat

/-- Does the character stand for itself between quotes? -/
def isVisible (c : Char) : Bool := isPrintable c && !extendsPrevious c && !isIgnorable c

/-- The letter that stands for a character behind a backslash. -/
def escapeLetter : Char → Option Char
  | '"' => some '"'
  | '\\' => some '\\'
  | '\n' => some 'n'
  | '\r' => some 'r'
  | '\t' => some 't'
  | '\x00' => some '0'
  | _ => none

def escape (c : Char) : List Char :=
  match escapeLetter c with
  | some l => ['\\', l]
  | none =>
    if isVisible c then [c]
    else ['\\', 'u', '\x7b'] ++ Nat.toDigits 16 c.toNat ++ ['\x7d']

def quoted (s : String) : String :=
  String.ofList ('"' :: s.toList.flatMap escape ++ ['"'])

end StreamDigest.Text
