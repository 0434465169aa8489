import StreamDigest.Decimal.Shortest

/-!
# Writing floats

A float is written with its shortest decimal. Values from `10 ^ -5` up to
below `10 ^ 16` are written positionally and always show a point; others have
one digit before the point, which is left out if no digit follows, and an
exponent with its sign.
-/

namespace StreamDigest.Decimal

/-- The least and the greatest position of the point, counted from before the
first digit, of a value that is written positionally. -/
def pointRange : Int × Int := (-4, 16)

def zerosText (n : Nat) : String := String.ofList (List.replicate n '0')

/-- An exponent with its sign and no zeros before its digits. -/
def exponentText (e : Int) : String :=
  (if e < 0 then "e-" else "e+") ++ toString e.natAbs

/-- The text of a decimal that does not end in zeros. -/
def text (d : Decimal) : String :=
  let digits := toString d.digits
  let point := (digits.length : Int) + d.exponent
  if pointRange.1 ≤ point ∧ point ≤ pointRange.2 then
    if 0 ≤ d.exponent then digits ++ zerosText d.exponent.toNat ++ ".0"
    else if 0 < point then
      let n := point.toNat
      String.ofList (digits.toList.take n) ++ "." ++ String.ofList (digits.toList.drop n)
    else "0." ++ zerosText (-point).toNat ++ digits
  else
    let mantissa :=
      match digits.toList with
      | first :: [] => String.ofList [first]
      | first :: rest => String.ofList (first :: '.' :: rest)
      | [] => ""
    mantissa ++ exponentText (point - 1)

/-- The text of a finite float. -/
def floatText (x : Float) : String :=
  let bits := x.toBits
  let sign := if bits >>> 63 = 1 then "-" else ""
  let magnitude := Dyadic.ofBits bits
  if magnitude.m = 0 then sign ++ "0.0"
  else sign ++ (strip 17 magnitude.shortest).text

end StreamDigest.Decimal
