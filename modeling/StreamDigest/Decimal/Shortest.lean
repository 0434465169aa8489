/-!
# The shortest decimal of a float

A finite double is `m * 2 ^ q`. The decimals that read back to it are those
nearer to it than to its neighbours, the middle between two belonging to the
even one. `shortest` looks for the fewest digits with which such a decimal can
be written and takes the nearest one of that length, the even one of two
equally near. All arithmetic is exact.
-/

namespace StreamDigest

/-- The magnitude of a finite double, `m * 2 ^ q`. -/
structure Dyadic where
  m : Nat
  q : Int
  /-- Is the neighbour below only half as far as the one above? -/
  narrow : Bool

/-- The magnitude that the bits of a finite double stand for. -/
def Dyadic.ofBits (bits : UInt64) : Dyadic :=
  let e := ((bits >>> 52) &&& 0x7ff).toNat
  let f := (bits &&& 0xfffffffffffff).toNat
  if e = 0 then ⟨f, -1074, false⟩ else ⟨1 <<< 52 + f, (e : Int) - 1075, f = 0 ∧ 1 < e⟩

/-- A decimal, `digits * 10 ^ exponent`. -/
structure Decimal where
  digits : Nat
  exponent : Int
  deriving DecidableEq, Repr

/-- Compare `a * 10 ^ i` with `n * 2 ^ j`. -/
def compareScaled (a : Nat) (i : Int) (n : Nat) (j : Int) : Ordering :=
  compare ((a * Nat.pow 10 i.toNat) <<< (-j).toNat) ((n * Nat.pow 10 (-i).toNat) <<< j.toNat)

namespace Dyadic

/-- Does the decimal read back to `x`? -/
def readsBack (x : Dyadic) (d : Decimal) : Bool :=
  let below := compareScaled d.digits d.exponent
    (if x.narrow then 4 * x.m - 1 else 4 * x.m - 2) (x.q - 2)
  let above := compareScaled d.digits d.exponent (4 * x.m + 2) (x.q - 2)
  let closed := x.m % 2 = 0
  (below = .gt || (closed && below = .eq)) && (above = .lt || (closed && above = .eq))

/-- `x / 10 ^ e`, as numerator and denominator. -/
def ratio (x : Dyadic) (e : Int) : Nat × Nat :=
  ((x.m * Nat.pow 10 (-e).toNat) <<< x.q.toNat, Nat.pow 10 e.toNat <<< (-x.q).toNat)

/-- The least `k` with `x < 10 ^ k`. Doubles lie between `10 ^ -324` and
`10 ^ 309`. -/
def scale (x : Dyadic) : Int :=
  let below (i : Nat) : Bool := compareScaled 1 ((i : Int) - 324) x.m x.q = .gt
  (((List.range 634).find? below).getD 634 : Int) - 324

/-- The decimal with last digit at `10 ^ e` that reads back to `x`, the nearer
one if there are two. -/
def onGrid (x : Dyadic) (e : Int) : Option Decimal :=
  let (num, den) := x.ratio e
  let low := num / den
  let nearLow := compare (2 * num) ((2 * low + 1) * den)
  match x.readsBack ⟨low, e⟩, x.readsBack ⟨low + 1, e⟩ with
  | true, true =>
    if nearLow = .lt ∨ (nearLow = .eq ∧ low % 2 = 0) then some ⟨low, e⟩ else some ⟨low + 1, e⟩
  | true, false => some ⟨low, e⟩
  | false, true => some ⟨low + 1, e⟩
  | false, false => none

/-- The exact value as a decimal. -/
def exact (x : Dyadic) : Decimal :=
  ⟨(x.m * Nat.pow 5 (-x.q).toNat) <<< x.q.toNat, min x.q 0⟩

/-- The shortest decimal that reads back to `x`, for `x` not zero. Seventeen
digits always do. -/
def shortest (x : Dyadic) : Decimal :=
  let k := x.scale
  ((List.range 17).findSome? fun (n : Nat) => x.onGrid (k - (n + 1 : Int))).getD x.exact

end Dyadic

/-- Move the zeros at the end of the digits into the exponent; `n` bounds their
number. -/
def Decimal.strip : Nat → Decimal → Decimal
  | 0, d => d
  | n + 1, d =>
    if d.digits ≠ 0 ∧ d.digits % 10 = 0 then strip n ⟨d.digits / 10, d.exponent + 1⟩ else d

end StreamDigest
