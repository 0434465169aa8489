import StreamDigest.Proofs.Poly1305.Standard

/-!
# The modulus is prime

Lucas' test: `n` is prime if some number has order `n - 1` modulo `n`, and for
that it is enough to look at `n - 1` divided by each of its prime factors. The
largest factor of `2 ^ 130 - 6` passes the test as well, and so does the largest
one below it; the others are small.
-/

namespace StreamDigest.Poly1305

/-- Lucas' test with the prime factors of `n - 1` at hand. -/
theorem prime_of_factors {n : ℕ} (a : ZMod n) (factors : List ℕ)
    (hfactors : ∀ q ∈ factors, q.Prime) (hprod : factors.prod = n - 1) (hone : a ^ (n - 1) = 1)
    (hne : ∀ q ∈ factors, a ^ ((n - 1) / q) ≠ 1) : n.Prime := by
  refine lucas_primality n a hone fun q hq hdvd => hne q ?_
  rw [← hprod] at hdvd
  exact mem_list_primes_of_dvd_prod hq.prime (fun p hp => (hfactors p hp).prime) hdvd

theorem prime_4024685905107147541 : Nat.Prime 4024685905107147541 := by
  refine prime_of_factors 2 [2, 2, 3, 3, 5, 13, 43, 4889, 37003, 221101] ?_ ?_ ?_ ?_
  · simp only [List.forall_mem_cons]
    norm_num
  · norm_num
  · norm_num only
    reduce_mod_char
  · simp only [List.forall_mem_cons]
    norm_num only
    reduce_mod_char
    decide

theorem prime_897064739519922787230182993783 : Nat.Prime 897064739519922787230182993783 := by
  refine prime_of_factors 5 [2, 73, 487, 3134801, 4024685905107147541] ?_ ?_ ?_ ?_
  · simp only [List.forall_mem_cons]
    exact ⟨by norm_num, by norm_num, by norm_num, by norm_num, prime_4024685905107147541, by simp⟩
  · norm_num
  · norm_num only
    reduce_mod_char
  · simp only [List.forall_mem_cons]
    norm_num only
    reduce_mod_char
    decide

/-- **The modulus is prime.** -/
theorem prime_modulus : modulus.Prime := by
  unfold modulus
  refine prime_of_factors 2 [2, 23, 32985101, 897064739519922787230182993783] ?_ ?_ ?_ ?_
  · simp only [List.forall_mem_cons]
    exact ⟨by norm_num, by norm_num, by norm_num, prime_897064739519922787230182993783, by simp⟩
  · norm_num
  · norm_num only
    reduce_mod_char
  · simp only [List.forall_mem_cons]
    norm_num only
    reduce_mod_char
    decide

instance : Fact modulus.Prime := ⟨prime_modulus⟩

end StreamDigest.Poly1305
