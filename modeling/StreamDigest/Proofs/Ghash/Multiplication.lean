import StreamDigest.Proofs.Ghash.Irreducible

/-!
# The laws of multiplication

`value` takes elements to the field of polynomials modulo `modulus`, products to
products and exclusive or to sums, and no two elements to the same. So each law
of the field is one of `mul`, although its loop treats the two factors
differently. A bit is selected by a branch in `mulStep`; selecting it by a mask,
with no branch at all, comes to the same (`mul_eq_masked`).
-/

namespace StreamDigest.Ghash

open Polynomial

-- as in `Field`, for the two ring structures of the coefficients
set_option maxRecDepth 4000

/-! ## Masks -/

/-- All ones if the bit of `x` at index `k` from the bottom is set, otherwise zero. -/
def maskOf (x : Element) (k : ℕ) : Element := -((x >>> k) &&& 1)

/-- One step of the multiplication by `x`, without a branch. -/
def maskedStep (x : Element) (state : Element × Element) (i : ℕ) : Element × Element :=
  (state.1 ^^^ (state.2 &&& maskOf x (127 - i)),
    (state.2 >>> 1) ^^^ (reduction &&& maskOf state.2 0))

theorem shiftRight_and_one (x : Element) (k : ℕ) :
    (x >>> k) &&& 1 = if x.getLsbD k then 1 else 0 := by
  apply BitVec.eq_of_getLsbD_eq
  intro i hi
  rcases Nat.eq_zero_or_pos i with rfl | hpos
  · cases hx : x.getLsbD k <;> simp [hx]
  · cases x.getLsbD k <;> simp [BitVec.getLsbD_one, hpos.ne']

theorem and_maskOf (v x : Element) (k : ℕ) :
    v &&& maskOf x k = if x.getLsbD k then v else 0 := by
  have hones : (-1 : Element) = BitVec.allOnes 128 := by decide
  rw [maskOf, shiftRight_and_one]
  cases x.getLsbD k
  · simp
  · rw [if_pos rfl, if_pos rfl, hones, BitVec.and_allOnes]

/-- Indices from the top and from the bottom. -/
theorem getMsbD_eq (x : Element) {i : ℕ} (hi : i < 128) : x.getMsbD i = x.getLsbD (127 - i) := by
  rw [BitVec.getMsbD_eq_getLsbD, decide_eq_true hi, Bool.true_and]

theorem maskedStep_eq (x : Element) (state : Element × Element) {i : ℕ} (hi : i < 128) :
    maskedStep x state i = mulStep x state i := by
  unfold maskedStep mulStep timesT
  rw [and_maskOf, and_maskOf, getMsbD_eq x hi]
  cases x.getLsbD (127 - i) <;> cases state.2.getLsbD 0 <;> simp

theorem mul_eq_masked (x y : Element) :
    mul x y = ((List.range 128).foldl (maskedStep x) (0, y)).1 := by
  unfold mul
  congr 1
  exact (List.foldl_ext _ _ _ fun state i hi => maskedStep_eq x state (List.mem_range.1 hi)).symm

/-! ## Laws -/

variable (a b c : Element)

protected theorem mul_comm : mul a b = mul b a := by
  apply value_injective
  rw [value_mul, value_mul, mul_comm]

protected theorem mul_assoc : mul (mul a b) c = mul a (mul b c) := by
  apply value_injective
  rw [value_mul, value_mul, value_mul, value_mul, mul_assoc]

theorem mul_xor : mul a (b ^^^ c) = mul a b ^^^ mul a c := by
  apply value_injective
  rw [value_mul, value_xor, value_xor, value_mul, value_mul, mul_add]

theorem xor_mul : mul (a ^^^ b) c = mul a c ^^^ mul b c := by
  rw [Ghash.mul_comm, mul_xor, Ghash.mul_comm c, Ghash.mul_comm c]

protected theorem mul_one : mul a one = a := by
  apply value_injective
  rw [value_mul, value_one, mul_one]

protected theorem one_mul : mul one a = a := by
  rw [Ghash.mul_comm, Ghash.mul_one]

/-- The coefficient of `t ^ i` is the bit at index `127 - i` from the bottom. -/
theorem coeff_polynomial (x : Element) (i : ℕ) :
    (polynomial x).coeff i = if i < 128 ∧ x.getLsbD (127 - i) then 1 else 0 := by
  rw [polynomial, coeff_ofBits]
  by_cases hi : i < 128
  · rw [getMsbD_eq x hi]
  · rw [if_neg fun h => hi h.1, if_neg fun h => hi h.1]

/-- **The words of 128 bits are the field with `2 ^ 128` elements**, with exclusive or as
addition and `mul` as multiplication: the product of polynomials, reduced by an irreducible
one, with branches or with masks. -/
theorem mul_field :
    (∀ x i, (polynomial x).coeff i = if i < 128 ∧ x.getLsbD (127 - i) then 1 else 0) ∧
    (∀ x y, polynomial (mul x y) =
      (polynomial x * polynomial y) %ₘ (X ^ 128 + X ^ 7 + X ^ 2 + X + 1)) ∧
    Irreducible (X ^ 128 + X ^ 7 + X ^ 2 + X + 1 : (ZMod 2)[X]) ∧
    (∀ x y, mul x y = ((List.range 128).foldl (maskedStep x) (0, y)).1) ∧
    (∀ a b, mul a b = mul b a) ∧
    (∀ a b c, mul (mul a b) c = mul a (mul b c)) ∧
    (∀ a b c, mul a (b ^^^ c) = mul a b ^^^ mul a c) ∧
    (∀ a b c, mul (a ^^^ b) c = mul a c ^^^ mul b c) ∧
    (∀ a, mul a (1 <<< 127) = a ∧ mul (1 <<< 127) a = a) ∧
    ∀ a b, mul a b = 0 ↔ a = 0 ∨ b = 0 := by
  have hmodulus : (X ^ 128 + X ^ 7 + X ^ 2 + X + 1 : (ZMod 2)[X]) = modulus := by
    rw [modulus_eq]
    ring
  rw [hmodulus]
  exact ⟨coeff_polynomial, polynomial_mul, irreducible_modulus, mul_eq_masked, Ghash.mul_comm,
    Ghash.mul_assoc, mul_xor, xor_mul, fun a => ⟨Ghash.mul_one a, Ghash.one_mul a⟩,
    fun _ _ => mul_eq_zero_iff⟩

/-- The top coefficient of `t * t ^ 127` comes back as the low ones. -/
example : mul (1 <<< 126) 1 = reduction := by decide +kernel

end StreamDigest.Ghash
