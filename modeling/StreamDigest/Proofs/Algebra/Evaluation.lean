import Mathlib

/-!
# Hashing by evaluation

GHASH and Poly1305 both add a coefficient to the accumulator and multiply it by
the key, coefficient by coefficient (`horner`). The result is the value at the
key of a polynomial without a constant term (`messagePolynomial`), so over a
field two messages have a given difference at few keys only, the roots of a
polynomial (`encard_keys_le`). That polynomial is not zero unless the messages
have the same coefficients from the last one on (`getD_reverse_eq`).
-/

namespace StreamDigest

open Polynomial

variable {R : Type*} [CommRing R]

/-- The accumulator after some coefficients, at the key `k`. -/
def horner (k : R) (cs : List R) : R := cs.foldl (fun y c => (y + c) * k) 0

/-- The polynomial `c₁ * X ^ q + … + c_q * X`. -/
noncomputable def messagePolynomial : List R → R[X]
  | [] => 0
  | c :: cs => C c * X ^ (cs.length + 1) + messagePolynomial cs

theorem horner_eq_eval (k : R) (cs : List R) : horner k cs = (messagePolynomial cs).eval k := by
  suffices ∀ y, cs.foldl (fun y c => (y + c) * k) y =
      y * k ^ cs.length + (messagePolynomial cs).eval k by
    rw [horner, this, zero_mul, zero_add]
  induction cs with
  | nil => simp [messagePolynomial]
  | cons c cs ih =>
    intro y
    rw [List.foldl_cons, ih, messagePolynomial, eval_add, eval_mul, eval_C, eval_pow, eval_X,
      List.length_cons]
    ring

/-- The same as a sum over the places of the coefficients. -/
theorem horner_range (k : R) (f : ℕ → R) (q : ℕ) :
    horner k ((List.range q).map f) = ∑ i ∈ Finset.range q, f i * k ^ (q - i) := by
  induction q with
  | zero => rfl
  | succ q ih =>
    have hpower : ∀ i ∈ Finset.range q, f i * k ^ (q + 1 - i) = f i * k ^ (q - i) * k := by
      intro i hi
      rw [Nat.succ_sub (Finset.mem_range.1 hi).le, pow_succ, mul_assoc]
    have hlast : horner k ((List.range (q + 1)).map f) =
        (horner k ((List.range q).map f) + f q) * k := by
      simp [horner, List.range_succ]
    rw [hlast, ih, Finset.sum_range_succ, Finset.sum_congr rfl hpower, ← Finset.sum_mul,
      Nat.add_sub_cancel_left, pow_one, add_mul]

/-! ## Coefficients -/

/-- The coefficients stand in the order of the message's last one first. -/
theorem coeff_messagePolynomial (cs : List R) (i : ℕ) :
    (messagePolynomial cs).coeff (i + 1) = cs.reverse.getD i 0 := by
  induction cs with
  | nil => simp [messagePolynomial]
  | cons c cs ih =>
    rw [messagePolynomial, coeff_add, ih, coeff_C_mul, coeff_X_pow, List.reverse_cons]
    rcases Nat.lt_trichotomy i cs.length with hi | rfl | hi
    · rw [if_neg (by omega), mul_zero, zero_add,
        List.getD_append _ _ _ _ (by rwa [List.length_reverse])]
    · simp
    · rw [if_neg (by omega), mul_zero, zero_add, List.getD_eq_default _ _ (by simpa using hi.le),
        List.getD_eq_default _ _ (by simpa using hi)]

theorem natDegree_messagePolynomial_le (cs : List R) :
    (messagePolynomial cs).natDegree ≤ cs.length := by
  rw [natDegree_le_iff_coeff_eq_zero]
  intro i hi
  obtain ⟨i, rfl⟩ : ∃ j, i = j + 1 := ⟨i - 1, by omega⟩
  rw [coeff_messagePolynomial, List.getD_eq_default]
  rw [List.length_reverse]
  omega

/-- A constant does not touch the coefficients of a message. -/
theorem getD_reverse_eq {cs cs' : List R} {d : R}
    (h : messagePolynomial cs = messagePolynomial cs' + C d) (i : ℕ) :
    cs.reverse.getD i 0 = cs'.reverse.getD i 0 := by
  rw [← coeff_messagePolynomial, h, coeff_add, coeff_C_succ, add_zero, coeff_messagePolynomial]

theorem eq_of_messagePolynomial_eq {cs cs' : List R} {d : R} (hlen : cs.length = cs'.length)
    (h : messagePolynomial cs = messagePolynomial cs' + C d) : cs = cs' := by
  rw [← List.reverse_inj]
  apply List.ext_getElem (by simp [hlen])
  intro i hi hi'
  have hget := getD_reverse_eq h i
  rwa [List.getD_eq_getElem _ _ hi, List.getD_eq_getElem _ _ hi'] at hget

/-- Without coefficients that vanish no message is longer than one with its polynomial. -/
theorem length_le_of_messagePolynomial_eq {cs cs' : List R} {d : R} (hne : ∀ c ∈ cs, c ≠ 0)
    (h : messagePolynomial cs = messagePolynomial cs' + C d) : cs.length ≤ cs'.length := by
  by_contra hlt
  have hi : cs.length - 1 < cs.reverse.length := by
    rw [List.length_reverse]
    omega
  have hget := getD_reverse_eq h (cs.length - 1)
  rw [List.getD_eq_getElem _ _ hi, List.getD_eq_default _ _ (by rw [List.length_reverse]; omega)]
    at hget
  exact hne _ (List.mem_reverse.1 (List.getElem_mem hi)) hget

/-! ## Keys -/

/-- **A given difference has few keys**, at most as many as the longer message has
coefficients. -/
theorem encard_keys_le [IsDomain R] {cs cs' : List R} {d : R}
    (h : messagePolynomial cs ≠ messagePolynomial cs' + C d) :
    {k | horner k cs = horner k cs' + d}.encard ≤ (max cs.length cs'.length : ℕ) := by
  classical
  have hne : messagePolynomial cs - (messagePolynomial cs' + C d) ≠ 0 := sub_ne_zero.2 h
  have hsub : {k | horner k cs = horner k cs' + d} ⊆
      ((messagePolynomial cs - (messagePolynomial cs' + C d)).roots.toFinset : Set R) := by
    intro k hk
    have heval : horner k cs = horner k cs' + d := hk
    rw [Finset.mem_coe, Multiset.mem_toFinset, mem_roots hne, IsRoot, eval_sub, eval_add, eval_C,
      ← horner_eq_eval, ← horner_eq_eval, heval, sub_self]
  have hdegree : (messagePolynomial cs - (messagePolynomial cs' + C d)).natDegree ≤
      max cs.length cs'.length := by
    refine (natDegree_sub_le _ _).trans (max_le_max (natDegree_messagePolynomial_le cs) ?_)
    rw [natDegree_add_C]
    exact natDegree_messagePolynomial_le cs'
  calc {k | horner k cs = horner k cs' + d}.encard
      ≤ (messagePolynomial cs - (messagePolynomial cs' + C d)).roots.toFinset.card := by
        rw [← Set.encard_coe_eq_coe_finsetCard]
        exact Set.encard_le_encard hsub
    _ ≤ (max cs.length cs'.length : ℕ) :=
        Nat.cast_le.2 ((Multiset.toFinset_card_le _).trans ((card_roots' _).trans hdegree))

end StreamDigest
