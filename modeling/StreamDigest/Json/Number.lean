import StreamDigest.Json.Value

/-!
# What written numbers stand for

A number without point and exponent stands for an integer, as long as 64 bits
hold it; minus zero and everything else stand for a float. A float is computed
in two roundings: the digits that fit 64 bits, as an integer, times or divided
by a power of ten.
-/

namespace StreamDigest.Json

inductive Number where
  | integer (n : Int)
  | float (x : Float)

/-- The greatest number that 64 bits hold. -/
def maxUnsigned : Nat := 0xffff_ffff_ffff_ffff

/-- The greatest magnitude of a negative number in 64 bits. -/
def maxNegated : Nat := 0x8000_0000_0000_0000

def maxExponent : Nat := 0x7fff_ffff

/-- Append digits to a number as long as 64 bits hold it. Returns the digits
that are left. -/
def accumulate (n : Nat) : List Nat → Nat × List Nat
  | [] => (n, [])
  | d :: ds => if n * 10 + d ≤ maxUnsigned then accumulate (n * 10 + d) ds else (n, d :: ds)

/-- A power of ten up to `10 ^ 308`. -/
def tenPow (k : Nat) : Float := Float.ofScientific 1 false k

/-- `f / 10 ^ k`, in steps where the power is too large for a float. -/
def scaleDown (f : Float) (k : Nat) : Float :=
  if k ≤ 308 then f / tenPow k
  else if f == 0 then f
  else scaleDown (f / tenPow 308) (k - 308)
termination_by k

/-- `n * 10 ^ e`, or `none` if that is too large for a float. -/
def floatOf (n : Nat) (e : Int) : Option Float :=
  let f := n.toUInt64.toFloat
  if e < 0 then some (scaleDown f (-e).toNat)
  else if e ≤ 308 then
    let f := f * tenPow e.toNat
    if f.isInf then none else some f
  else if f == 0 then some f
  else none

namespace Numeral

/-- The exponent behind the digits. One that passes 31 bits decides alone: it
makes the number zero or too large. -/
def scaled (n : Nat) (e : Int) (exponent : Option (Bool × List Nat)) : Option Float :=
  match exponent with
  | none => floatOf n e
  | some (negative, digits) =>
    let k : Nat := digits.foldl (fun k d => 10 * k + d) 0
    if k ≤ maxExponent then floatOf n (if negative then e - (k : Int) else e + (k : Int))
    else if n ≠ 0 ∧ negative = false then none
    else some 0

/-- The float that a numeral stands for, without its sign. -/
def magnitude (x : Numeral) : Option Float :=
  let (n, left) := accumulate 0 x.whole
  let e : Int := left.length
  match x.fraction with
  | none => scaled n e x.exponent
  | some digits =>
    let (n, left) := accumulate n digits
    scaled n (e - (digits.length - left.length)) x.exponent

/-- The integer that a numeral stands for, if it stands for one. -/
def integer? (x : Numeral) : Option Int :=
  if x.fraction.isSome ∨ x.exponent.isSome then none
  else
    match accumulate 0 x.whole with
    | (n, []) =>
      if x.negative then
        if 0 < n ∧ n ≤ maxNegated then some (-(n : Int)) else none
      else some n
    | _ => none

/-- What a numeral stands for, or `none` if that is too large. -/
def value (x : Numeral) : Option Number :=
  match x.integer? with
  | some n => some (.integer n)
  | none => x.magnitude.map fun f => .float (if x.negative then -f else f)

end Numeral

end StreamDigest.Json
