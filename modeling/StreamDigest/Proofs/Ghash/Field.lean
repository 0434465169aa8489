import Mathlib
import StreamDigest.Ghash.Field

/-!
# Multiplication in the field of GHASH

An element stands for the polynomial whose coefficients are its bits from the
top down (`polynomial`). In the ring of polynomials modulo `modulus`, `timesT`
is multiplication by `t` and exclusive or is addition, so the loop of `mul`
sums the right multiples: `polynomial_mul` says that it is the product, reduced.
-/

namespace StreamDigest.Ghash

open Polynomial

-- the coefficients are a field and a commutative ring; comparing the two goes deep
set_option maxRecDepth 4000

/-- The polynomial that products are reduced by. -/
noncomputable def modulus : (ZMod 2)[X] := X ^ 128 + (X ^ 7 + X ^ 2 + X + 1)

theorem modulus_eq : modulus = X ^ 128 + (X ^ 7 + X ^ 2 + X + 1) := modulus.eq_1

theorem modulus_monic : modulus.Monic := by
  unfold modulus
  apply monic_X_pow_add
  compute_degree!

theorem natDegree_modulus : modulus.natDegree = 128 := by
  unfold modulus
  compute_degree!

theorem degree_modulus : modulus.degree = (128 : ℕ) := by
  rw [degree_eq_natDegree modulus_monic.ne_zero, natDegree_modulus]

/-! ## Bits as coefficients -/

/-- The polynomial of degree below `n` whose coefficients are given as bits. -/
noncomputable def ofBits (n : ℕ) (bits : ℕ → Bool) : (ZMod 2)[X] :=
  ∑ i ∈ Finset.range n, if bits i then X ^ i else 0

theorem coeff_ofBits (n : ℕ) (bits : ℕ → Bool) (k : ℕ) :
    (ofBits n bits).coeff k = if k < n ∧ bits k then 1 else 0 := by
  have hterm : ∀ i, (if bits i then X ^ i else (0 : (ZMod 2)[X])).coeff k =
      if k = i then (if bits k then 1 else 0) else 0 := by
    intro i
    split_ifs <;> simp_all [coeff_X_pow]
  simp only [ofBits, finsetSum_coeff, hterm, Finset.sum_ite_eq, Finset.mem_range]
  split_ifs <;> simp_all

theorem coeff_ofBits_eq_one {n : ℕ} {bits : ℕ → Bool} {k : ℕ} (hk : k < n) :
    (ofBits n bits).coeff k = 1 ↔ bits k = true := by
  rw [coeff_ofBits]
  cases bits k <;> simp [hk]

theorem ofBits_congr {n : ℕ} {f g : ℕ → Bool} (h : ∀ i < n, f i = g i) :
    ofBits n f = ofBits n g := by
  ext k
  simp only [coeff_ofBits]
  by_cases hk : k < n
  · rw [h k hk]
  · simp [hk]

theorem ofBits_inj {n : ℕ} {f g : ℕ → Bool} (h : ofBits n f = ofBits n g) {i : ℕ} (hi : i < n) :
    f i = g i := by
  have hcoeff := congrArg (coeff · i) h
  simp only [coeff_ofBits, hi, true_and] at hcoeff
  cases hf : f i <;> cases hg : g i <;> simp_all

theorem degree_ofBits_lt (n : ℕ) (bits : ℕ → Bool) : (ofBits n bits).degree < n := by
  rw [degree_lt_iff_coeff_zero]
  intro k hk
  rw [coeff_ofBits, if_neg (by omega)]

theorem ofBits_xor (n : ℕ) (f g : ℕ → Bool) :
    ofBits n (fun i => f i ^^ g i) = ofBits n f + ofBits n g := by
  ext k
  simp only [coeff_add, coeff_ofBits]
  by_cases hk : k < n
  · cases f k <;> cases g k <;> simp [hk]
    decide
  · simp [hk]

/-- The polynomial of an element: the bit at index `i` from the top is the
coefficient of `t ^ i`. -/
noncomputable def polynomial (x : Element) : (ZMod 2)[X] := ofBits 128 x.getMsbD

theorem polynomial_injective : Function.Injective polynomial := by
  intro x y h
  apply BitVec.eq_of_getMsbD_eq
  intro i hi
  exact ofBits_inj h hi

theorem degree_polynomial_lt (x : Element) : (polynomial x).degree < modulus.degree := by
  rw [degree_modulus]
  exact degree_ofBits_lt 128 _

theorem polynomial_xor (x y : Element) :
    polynomial (x ^^^ y) = polynomial x + polynomial y := by
  rw [polynomial, polynomial, polynomial, ← ofBits_xor]
  exact ofBits_congr fun i _ => BitVec.getMsbD_xor

@[simp] theorem polynomial_zero : polynomial 0#128 = 0 := by
  ext k
  simp [polynomial, coeff_ofBits]

/-- Shifting multiplies by `t` and loses the coefficient of `t ^ 127`. -/
theorem X_mul_polynomial (x : Element) :
    X * polynomial x = polynomial (x >>> 1) + if x.getLsbD 0 then X ^ 128 else 0 := by
  have hlast : x.getLsbD 0 = x.getMsbD 127 := by rw [BitVec.getLsbD_eq_getMsbD]; rfl
  rw [hlast]
  ext k
  cases k with
  | zero =>
    cases x.getMsbD 127 <;> simp [polynomial, coeff_ofBits, coeff_X_pow]
  | succ k =>
    simp only [polynomial, coeff_X_mul, coeff_add, coeff_ofBits, BitVec.getMsbD_ushiftRight]
    rcases Nat.lt_trichotomy k 127 with hk | rfl | hk
    · have hne : k + 1 ≠ 128 := by omega
      cases x.getMsbD 127 <;>
        simp [coeff_X_pow, show k < 128 by omega, show k + 1 < 128 by omega, hne]
    · cases x.getMsbD 127 <;> simp [coeff_X_pow]
    · have hne : k + 1 ≠ 128 := by omega
      cases x.getMsbD 127 <;>
        simp [coeff_X_pow, show ¬ k < 128 by omega, show ¬ k + 1 < 128 by omega, hne]

theorem polynomial_reduction : polynomial reduction = X ^ 7 + X ^ 2 + X + 1 := by
  have hbits : ∀ i < 128, reduction.getMsbD i = (i = 0 || i = 1 || i = 2 || i = 7) := by
    decide
  rw [polynomial, ofBits_congr hbits]
  ext k
  rw [coeff_ofBits]
  simp only [coeff_add, coeff_X_pow, coeff_X, coeff_one]
  by_cases h : k = 0 ∨ k = 1 ∨ k = 2 ∨ k = 7
  · rcases h with rfl | rfl | rfl | rfl <;> simp
  · simp only [not_or] at h
    obtain ⟨h₀, h₁, h₂, h₇⟩ := h
    simp [h₀, h₁, h₂, h₇, Ne.symm h₁]

/-! ## The loop of the multiplication -/

/-- What an element is modulo `modulus`. -/
noncomputable def value (x : Element) : AdjoinRoot modulus := AdjoinRoot.mk modulus (polynomial x)

theorem value_injective : Function.Injective value := by
  intro x y h
  apply polynomial_injective
  rw [value, value, AdjoinRoot.mk_eq_mk] at h
  have hdeg : (polynomial x - polynomial y).degree < modulus.degree :=
    (degree_sub_le _ _).trans_lt (max_lt (degree_polynomial_lt x) (degree_polynomial_lt y))
  exact sub_eq_zero.1 (eq_zero_of_dvd_of_degree_lt h hdeg)

theorem value_xor (x y : Element) : value (x ^^^ y) = value x + value y := by
  simp only [value, polynomial_xor, map_add]

@[simp] theorem value_zero : value 0#128 = 0 := by rw [value, polynomial_zero, map_zero]

theorem value_eq_zero {x : Element} : value x = 0 ↔ x = 0 :=
  ⟨fun h => value_injective (h.trans value_zero.symm), fun h => h ▸ value_zero⟩

theorem two_eq_zero : (2 : AdjoinRoot modulus) = 0 := by
  rw [← map_ofNat (AdjoinRoot.of modulus) 2, show (2 : ZMod 2) = 0 from rfl, map_zero]

/-- What falls out of a shift comes back as `reduction`. -/
theorem value_reduction : value reduction = AdjoinRoot.root modulus ^ 128 := by
  have hself := (congrArg (AdjoinRoot.mk modulus) modulus_eq).symm.trans AdjoinRoot.mk_self
  rw [map_add, map_pow, AdjoinRoot.mk_X] at hself
  rw [value, polynomial_reduction]
  linear_combination hself - AdjoinRoot.root modulus ^ 128 * two_eq_zero

theorem value_timesT (x : Element) : value (timesT x) = AdjoinRoot.root modulus * value x := by
  have hshift := congrArg (AdjoinRoot.mk modulus) (X_mul_polynomial x)
  rw [map_mul, AdjoinRoot.mk_X] at hshift
  rw [value.eq_1 x, hshift, timesT]
  split
  · rw [map_add, map_pow, AdjoinRoot.mk_X, ← value_reduction, ← value, value_xor]
  · rw [add_zero, value]

/-- After `k` steps the power is `t ^ k * y` and the sum has the multiples for
the first `k` coefficients of `x`. -/
theorem value_foldl_mulStep (x y : Element) (k : ℕ) :
    value ((List.range k).foldl (mulStep x) (0, y)).2 = AdjoinRoot.root modulus ^ k * value y ∧
    value ((List.range k).foldl (mulStep x) (0, y)).1 =
      AdjoinRoot.mk modulus (ofBits k x.getMsbD) * value y := by
  induction k with
  | zero => simp [ofBits]
  | succ k ih =>
    obtain ⟨hpower, hsum⟩ := ih
    have hbits : ofBits (k + 1) x.getMsbD =
        ofBits k x.getMsbD + if x.getMsbD k then X ^ k else 0 := Finset.sum_range_succ _ k
    rw [List.range_succ, List.foldl_append, hbits]
    generalize (List.range k).foldl (mulStep x) (0, y) = s at hpower hsum
    simp only [List.foldl_cons, List.foldl_nil, mulStep]
    constructor
    · rw [value_timesT, hpower, pow_succ']
      ring
    · split
      · rw [value_xor, hsum, hpower, map_add, map_pow, AdjoinRoot.mk_X, add_mul]
      · rw [add_zero, hsum]

theorem value_mul (x y : Element) : value (mul x y) = value x * value y :=
  (value_foldl_mulStep x y 128).2

/-- **Multiplication is that of polynomials**, reduced by `modulus`. -/
theorem polynomial_mul (x y : Element) :
    polynomial (mul x y) = (polynomial x * polynomial y) %ₘ modulus := by
  have h : AdjoinRoot.mk modulus (polynomial (mul x y)) =
      AdjoinRoot.mk modulus (polynomial x * polynomial y) := by
    rw [map_mul]
    exact value_mul x y
  have hmod := congrArg (AdjoinRoot.modByMonicHom modulus_monic) h
  rwa [AdjoinRoot.modByMonicHom_mk, AdjoinRoot.modByMonicHom_mk,
    (modByMonic_eq_self_iff modulus_monic).2 (degree_polynomial_lt _)] at hmod

end StreamDigest.Ghash
