/-!
# The field of AES

A byte is a polynomial over the field of two elements of degree below 8, the
lowest bit being the constant term. Multiplication is taken modulo
`t ^ 8 + t ^ 4 + t ^ 3 + t + 1`.
-/

namespace StreamDigest.Aes

def timesT (x : UInt8) : UInt8 := if x < 0x80 then x <<< 1 else (x <<< 1) ^^^ 0x1b

/-- The product of two bytes, by the bits of `y` from the top down. -/
def mul (x y : UInt8) : UInt8 :=
  [7, 6, 5, 4, 3, 2, 1, 0].foldl
    (fun acc i => timesT acc ^^^ (if (y >>> i) &&& 1 = 1 then x else 0)) 0

def pow (x : UInt8) : Nat → UInt8
  | 0 => 1
  | n + 1 => mul (pow x n) x

/-- The inverse of a byte; zero for zero. -/
def inverse (x : UInt8) : UInt8 := pow x 254

/-- `x` turned left by `n` bits, `0 < n < 8`. -/
def rotateLeft (x : UInt8) (n : UInt8) : UInt8 := (x <<< n) ||| (x >>> (8 - n))

/-- The affine map behind the inversion. -/
def affine (x : UInt8) : UInt8 :=
  x ^^^ rotateLeft x 1 ^^^ rotateLeft x 2 ^^^ rotateLeft x 3 ^^^ rotateLeft x 4 ^^^ 0x63

def sbox : Vector UInt8 256 := Vector.ofFn fun i => affine (inverse (UInt8.ofNat i))

/-- The substitution of a byte. -/
def sub (x : UInt8) : UInt8 := sbox.get ⟨x.toNat, x.toNat_lt⟩

end StreamDigest.Aes
