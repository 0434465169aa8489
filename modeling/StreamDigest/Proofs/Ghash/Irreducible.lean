import StreamDigest.Proofs.Ghash.Field

/-!
# The field of GHASH has no zero divisors

`modulus` is irreducible by Rabin's test. Modulo `modulus`, `t ^ (2 ^ 128)` is
`t`, so the degree of an irreducible factor divides 128; a degree of 64 or less
would divide 64, and then the factor would divide `t ^ (2 ^ 64) - t`, which has
an inverse. Both facts are closed computations with `mul` (`conjugate`).
-/

namespace StreamDigest.Ghash

open Polynomial

-- as in `Field`, for the two ring structures of the coefficients
set_option maxRecDepth 4000

/-- The element `1`. -/
def one : Element := 1 <<< 127

/-- The element `t`. -/
def indeterminate : Element := 1 <<< 126

def square (x : Element) : Element := mul x x

/-- `t ^ (2 ^ n)`, by squaring. -/
def conjugate (n : ℕ) : Element := square^[n] indeterminate

theorem value_one : value one = 1 := by
  have hbits : ∀ i < 128, one.getMsbD i = decide (i = 0) := by decide
  have hone : polynomial one = 1 := by
    rw [polynomial, ofBits_congr hbits]
    ext k
    cases k <;> simp [coeff_ofBits, coeff_one]
  rw [value, hone, map_one]

theorem value_indeterminate : value indeterminate = AdjoinRoot.root modulus := by
  have hbits : ∀ i < 128, indeterminate.getMsbD i = decide (i = 1) := by decide
  have hX : polynomial indeterminate = X := by
    rw [polynomial, ofBits_congr hbits]
    ext k
    by_cases h : k = 1
    · simp [coeff_ofBits, h]
    · simp [coeff_ofBits, coeff_X, h, Ne.symm h]
  rw [value, hX, AdjoinRoot.mk_X]

theorem value_conjugate (n : ℕ) : value (conjugate n) = AdjoinRoot.root modulus ^ 2 ^ n := by
  induction n with
  | zero => rw [pow_zero, pow_one, ← value_indeterminate]; rfl
  | succ n ih =>
    rw [conjugate, Function.iterate_succ_apply', square, value_mul, ← conjugate, ih, ← pow_add,
      pow_succ, Nat.mul_two]

/-- The element for `t ^ (2 ^ n) - t`. -/
theorem value_conjugate_xor (n : ℕ) : value (conjugate n ^^^ indeterminate) =
    AdjoinRoot.mk modulus (X ^ Nat.card (ZMod 2) ^ n - X) := by
  rw [value_xor, value_conjugate, value_indeterminate, map_sub, map_pow, AdjoinRoot.mk_X,
    Nat.card_zmod]
  linear_combination AdjoinRoot.root modulus * two_eq_zero

theorem modulus_dvd_of_conjugate {n : ℕ} (h : conjugate n = indeterminate) :
    modulus ∣ X ^ Nat.card (ZMod 2) ^ n - X := by
  rw [← AdjoinRoot.mk_eq_zero, ← value_conjugate_xor, h, BitVec.xor_self, value_zero]

/-- With an inverse of `t ^ (2 ^ n) - t` at hand, no factor of `modulus` divides it. -/
theorem isUnit_of_dvd_both {n : ℕ} {u : Element}
    (h : mul u (conjugate n ^^^ indeterminate) = one) {g : (ZMod 2)[X]} (hg : g ∣ modulus)
    (hn : g ∣ X ^ Nat.card (ZMod 2) ^ n - X) : IsUnit g := by
  have hone : AdjoinRoot.mk modulus (polynomial u * (X ^ Nat.card (ZMod 2) ^ n - X)) =
      AdjoinRoot.mk modulus 1 := by
    rw [map_mul, map_one, ← value_conjugate_xor, ← value, ← value_mul, h, value_one]
  rw [AdjoinRoot.mk_eq_mk] at hone
  exact isUnit_of_dvd_one ((dvd_sub_right (hn.mul_left _)).1 (hg.trans hone))

theorem conjugate_64 : conjugate 64 = 0x6f9945a9e519a7229d4c1ad657f8a686 := by decide +kernel

theorem conjugate_128 : conjugate 128 = indeterminate := by
  have hback : square^[64] 0x6f9945a9e519a7229d4c1ad657f8a686 = indeterminate := by decide +kernel
  rw [← conjugate_64, conjugate, ← Function.iterate_add_apply] at hback
  exact hback

theorem mul_conjugate_64 :
    mul 0x180da934bf53158251c13dbb149f5279 (conjugate 64 ^^^ indeterminate) = one := by
  rw [conjugate_64]
  decide +kernel

/-- The degree of a proper factor would divide 64. -/
theorem dvd_64_of_dvd_128 : ∀ d ≤ 64, d ∣ 128 → d ∣ 64 := by decide

/-- **The polynomial of the field is irreducible.** -/
theorem irreducible_modulus : Irreducible modulus := by
  have hne : modulus ≠ 1 := by
    intro h
    have hdegree := natDegree_modulus
    rw [h, natDegree_one] at hdegree
    omega
  rw [modulus_monic.irreducible_iff_lt_natDegree_lt hne, natDegree_modulus]
  intro q hq hdegree hdvd
  rw [Finset.mem_Ioc] at hdegree
  obtain ⟨g, hg, hgq⟩ := WfDvdMonoid.exists_irreducible_factor
    (not_isUnit_of_natDegree_pos q hdegree.1) hq.ne_zero
  have hgm : g ∣ modulus := hgq.trans hdvd
  have h128 : g.natDegree ∣ 128 := hg.natDegree_dvd_iff_dvd_X_pow_card_pow_sub_X.2
    (hgm.trans (modulus_dvd_of_conjugate conjugate_128))
  have h64 : g.natDegree ∣ 64 := dvd_64_of_dvd_128 _
    ((natDegree_le_of_dvd hgq hq.ne_zero).trans hdegree.2) h128
  exact hg.not_isUnit (isUnit_of_dvd_both mul_conjugate_64 hgm
    (hg.natDegree_dvd_iff_dvd_X_pow_card_pow_sub_X.1 h64))

instance : Fact (Irreducible modulus) := ⟨irreducible_modulus⟩

/-- A product is zero only if a factor is. -/
theorem mul_eq_zero_iff {x y : Element} : mul x y = 0 ↔ x = 0 ∨ y = 0 := by
  rw [← value_eq_zero, value_mul, mul_eq_zero, value_eq_zero, value_eq_zero]

/-- Multiplication by an element other than zero loses nothing. -/
theorem mul_right_cancel {x y h : Element} (hh : h ≠ 0) (heq : mul x h = mul y h) : x = y := by
  apply value_injective
  have hvalue : value x * value h = value y * value h := by
    rw [← value_mul, ← value_mul, heq]
  exact mul_right_cancel₀ (mt value_eq_zero.1 hh) hvalue

end StreamDigest.Ghash
