/-!
# The field of GHASH

A 128-bit word is a polynomial over the field of two elements of degree below
128; the coefficient of `t ^ i` is the `i`-th bit from the top. Addition is
exclusive or, and multiplication is taken modulo
`t ^ 128 + t ^ 7 + t ^ 2 + t + 1`.
-/

namespace StreamDigest.Ghash

abbrev Element := BitVec 128

/-- What `t ^ 128` reduces to. -/
def reduction : Element := 0xe1 <<< 120

/-- Multiply by `t`: shift away from the top, and reduce the bit that falls
out. -/
def timesT (x : Element) : Element :=
  if x.getLsbD 0 then (x >>> 1) ^^^ reduction else x >>> 1

/-- One step of the multiplication by `x`: add `t ^ i * y` to the sum if `x`
has that coefficient, and go on to the next power. -/
def mulStep (x : Element) (state : Element × Element) (i : Nat) : Element × Element :=
  (if x.getMsbD i then state.1 ^^^ state.2 else state.1, timesT state.2)

def mul (x y : Element) : Element := ((List.range 128).foldl (mulStep x) (0, y)).1

end StreamDigest.Ghash
