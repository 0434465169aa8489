import StreamDigest.Bytes.Endian

/-!
# Numbers in three limbs

Poly1305 computes modulo `p = 2 ^ 130 - 5`. A number is kept in three 64-bit
words of 44, 44 and 42 bits, so that products of limbs and their carries fit
128 bits and `2 ^ 130` folds back as a factor of 5. Between blocks a number is
only partly reduced: the limbs may exceed their bits a little, and the value
may exceed `p`. `Limbs.reduce` gives the least residue.
-/

namespace StreamDigest.Poly1305

abbrev Word := BitVec 64

/-- The sum of a few products of words. -/
abbrev Wide := BitVec 128

/-- A number `x₀ + 2 ^ 44 * x₁ + 2 ^ 88 * x₂`. -/
structure Limbs where
  x₀ : Word
  x₁ : Word
  x₂ : Word
  deriving DecidableEq, Repr

def mask44 : Word := 0xfffffffffff

def mask42 : Word := 0x3ffffffffff

/-- The full product of two words. -/
def mul (x y : Word) : Wide := x.setWidth 128 * y.setWidth 128

def lo (d : Wide) : Word := d.setWidth 64

/-- The low word of a shifted number. -/
def shr (d : Wide) (n : Nat) : Word := (d >>> n).setWidth 64

/-- A number `d₀ + 2 ^ 44 * d₁ + 2 ^ 88 * d₂`, each part a sum of products. -/
structure Sums where
  d₀ : Wide
  d₁ : Wide
  d₂ : Wide
  deriving DecidableEq, Repr

namespace Sums

/-- Add to each part what the one below it has above its 44 bits. -/
def carryUp (d : Sums) : Sums :=
  let d₁ := d.d₁ + (shr d.d₀ 44).setWidth 128
  ⟨d.d₀, d₁, d.d₂ + (shr d₁ 44).setWidth 128⟩

/-- The limbs of sums whose carries are handed on. What is above the 130 bits
counts five times at the low end; its carry into the middle limb stays there. -/
def fold (d : Sums) : Limbs :=
  let h₀ := (lo d.d₀ &&& mask44) + shr d.d₂ 42 * 5
  ⟨h₀ &&& mask44, (lo d.d₁ &&& mask44) + (h₀ >>> 44), lo d.d₂ &&& mask42⟩

end Sums

namespace Limbs

def zero : Limbs := ⟨0, 0, 0⟩

/-- The limbs of a number of 128 bits, given as two words. -/
def ofWords (t₀ t₁ : Word) : Limbs :=
  ⟨t₀ &&& mask44, ((t₀ >>> 44) ||| (t₁ <<< 20)) &&& mask44, (t₁ >>> 24) &&& mask42⟩

/-- The low 128 bits of a number with limbs within their bits, as two words. -/
def toWords (h : Limbs) : Word × Word :=
  (h.x₀ ||| (h.x₁ <<< 44), (h.x₁ >>> 20) ||| (h.x₂ <<< 24))

/-- The sum, limb by limb and without carries. -/
def add (a b : Limbs) : Limbs := ⟨a.x₀ + b.x₀, a.x₁ + b.x₁, a.x₂ + b.x₂⟩

/-- The product before any carry. What a product of limbs has at `2 ^ 132` or
above counts `4 * 5` times as much `132` bits further down. -/
def product (h r : Limbs) : Sums :=
  let s₁ := r.x₁ * 20
  let s₂ := r.x₂ * 20
  ⟨mul h.x₀ r.x₀ + mul h.x₁ s₂ + mul h.x₂ s₁,
    mul h.x₀ r.x₁ + mul h.x₁ r.x₀ + mul h.x₂ s₂,
    mul h.x₀ r.x₂ + mul h.x₁ r.x₁ + mul h.x₂ r.x₀⟩

/-- The product modulo `p`, partly reduced. -/
def mulMod (h r : Limbs) : Limbs := (product h r).carryUp.fold

/-- One pass of carries from the middle limb round to it again; the last carry
into the middle limb stays there. -/
def carry (h : Limbs) : Limbs :=
  let h₂ := h.x₂ + (h.x₁ >>> 44)
  let h₀ := h.x₀ + (h₂ >>> 42) * 5
  ⟨h₀ &&& mask44, (h.x₁ &&& mask44) + (h₀ >>> 44), h₂ &&& mask42⟩

/-- `h - p`, with a borrow in the top bit of the last limb if `h < p`. -/
def minusModulus (h : Limbs) : Limbs :=
  let g₀ := h.x₀ + 5
  let g₁ := h.x₁ + (g₀ >>> 44)
  ⟨g₀ &&& mask44, g₁ &&& mask44, h.x₂ + (g₁ >>> 44) - (1 <<< 42)⟩

/-- All ones if the subtraction of the modulus did not borrow, else zero. -/
def noBorrow (g : Limbs) : Word := (g.x₂ >>> 63) - 1

/-- The bits of `a` where `mask` is set, and those of `b` where it is not. -/
def select (mask : Word) (a b : Limbs) : Limbs :=
  ⟨(b.x₀ &&& ~~~mask) ||| (a.x₀ &&& mask), (b.x₁ &&& ~~~mask) ||| (a.x₁ &&& mask),
    (b.x₂ &&& ~~~mask) ||| (a.x₂ &&& mask)⟩

/-- The least residue modulo `p`. -/
def reduce (h : Limbs) : Limbs :=
  let h := h.carry.carry
  let g := h.minusModulus
  select g.noBorrow g h

/-- The sum with carries, modulo `2 ^ 130`. -/
def addCarry (a b : Limbs) : Limbs :=
  let h₀ := a.x₀ + b.x₀
  let h₁ := a.x₁ + (b.x₁ + (h₀ >>> 44))
  let h₂ := a.x₂ + (b.x₂ + (h₁ >>> 44))
  ⟨h₀ &&& mask44, h₁ &&& mask44, h₂ &&& mask42⟩

end Limbs

end StreamDigest.Poly1305
