import StreamDigest.Gcm.Aead
import StreamDigest.Proofs.Ghash.Digest
import StreamDigest.Proofs.Ghash.Field

/-!
# Authenticated encryption as the standard writes it

SP 800-38D over a block cipher `E`, for nonces of 96 bits. Blocks are
polynomials over the field of two elements, the leftmost bit the constant
coefficient, and `ghash` is the recursion over them with products of
polynomials. The padding and the counter are written as they are defined, from
lengths and numbers; behind each definition stands what it is in the library.
-/

namespace StreamDigest.Gcm

@[simp] theorem length_block (b : Block) : b.toBytes.length = 16 := b.length_toBytes

@[simp] theorem length_nonce (nonce : Nonce) : nonce.toBytes.length = 12 := nonce.length_toBytes

namespace Standard

open Polynomial

/-- The block with the given sixteen bytes. -/
def toBlock (bs : Bytes) : Block := Vector.ofFn fun i => bs.getD i 0

theorem toBytes_toBlock {bs : Bytes} (h : bs.length = 16) : (toBlock bs).toBytes = bs := by
  apply List.ext_getElem ((toBlock bs).length_toList.trans h.symm)
  intro i _ hi
  simp [toBlock, hi]

/-! ## GHASH -/

noncomputable def polynomial (block : Bytes) : (ZMod 2)[X] := Ghash.ofBits 128 (Bytes.bit block)

/-- The block of a polynomial of degree below 128. -/
noncomputable def ofPolynomial (p : (ZMod 2)[X]) : Bytes :=
  Bytes.toBE 16 (Nat.ofBits fun i : Fin 128 => p.coeff (127 - i) = 1)

/-- The product of two blocks. -/
noncomputable def product (x y : Bytes) : Bytes :=
  ofPolynomial ((polynomial x * polynomial y) %ₘ (X ^ 128 + (X ^ 7 + X ^ 2 + X + 1)))

/-- The last of `y₀ = 0`, `yᵢ = (yᵢ₋₁ + xᵢ) * h`. -/
noncomputable def ghash (h : Bytes) (xs : List Bytes) : Bytes :=
  xs.foldl (fun y x => product (Bytes.xor y x) h) (Bytes.zeros 16)

/-- On blocks, the polynomials and their product are those of the elements. -/
theorem polynomial_eq {block : Bytes} (h : block.length = 16) :
    polynomial block = Ghash.polynomial (Ghash.elementOf block) :=
  Ghash.ofBits_congr fun _ hi => (Ghash.getMsbD_elementOf h hi).symm

theorem ofPolynomial_polynomial (x : Ghash.Element) :
    ofPolynomial (Ghash.polynomial x) = Ghash.blockOf x := by
  have hbit : ∀ i : Fin 128, decide ((Ghash.polynomial x).coeff (127 - i) = 1) = x.getLsbD i := by
    intro i
    have hi : 127 - (i : ℕ) < 128 := by omega
    have hflip : x.getMsbD (127 - i) = x.getLsbD i := by
      rw [BitVec.getLsbD_eq_getMsbD, decide_eq_true i.isLt, Bool.true_and]
    rw [Bool.eq_iff_iff, decide_eq_true_iff, ← hflip]
    exact Ghash.coeff_ofBits_eq_one hi
  have hx : Nat.ofBits (fun i : Fin 128 => x.getLsbD i) = x.toNat := by
    simp only [← BitVec.testBit_toNat]
    rw [Nat.ofBits_testBit, Nat.mod_eq_of_lt x.isLt]
  simp only [ofPolynomial, hbit, hx, Ghash.blockOf]

theorem product_eq {x y : Bytes} (hx : x.length = 16) (hy : y.length = 16) :
    product x y = Ghash.blockOf (Ghash.mul (Ghash.elementOf x) (Ghash.elementOf y)) := by
  rw [product, polynomial_eq hx, polynomial_eq hy, ← Ghash.modulus_eq, ← Ghash.polynomial_mul,
    ofPolynomial_polynomial]

theorem ghash_eq {h : Bytes} (hh : h.length = 16) {xs : List Bytes}
    (hxs : ∀ x ∈ xs, x.length = 16) :
    ghash h xs =
      Ghash.blockOf (Ghash.accumulate (Ghash.elementOf h) 0 (xs.map Ghash.elementOf)) := by
  suffices ∀ y, xs.foldl (fun y x => product (Bytes.xor y x) h) (Ghash.blockOf y) =
      Ghash.blockOf (Ghash.accumulate (Ghash.elementOf h) y (xs.map Ghash.elementOf)) from this 0
  induction xs with
  | nil => exact fun y => rfl
  | cons x xs ih =>
    intro y
    have hx : x.length = 16 := hxs x List.mem_cons_self
    have hy := Ghash.length_blockOf y
    have hsum : (Bytes.xor (Ghash.blockOf y) x).length = 16 := by
      rw [Bytes.length_xor, hy, hx, Nat.min_self]
    rw [List.foldl_cons, product_eq hsum hh, Ghash.elementOf_xor hy hx, Ghash.elementOf_blockOf,
      ih fun x hx => hxs x (List.mem_cons_of_mem _ hx)]
    rfl

/-! ## Counter mode -/

/-- The nonce and the number 1, in 32 bits. -/
def initial (nonce : Nonce) : Block := toBlock (nonce.toBytes ++ [0, 0, 0, 1])

/-- The block with its last 32 bits, as a number, increased by one modulo `2 ^ 32`. -/
def inc32 (j : Block) : Block :=
  toBlock (j.toBytes.take 12 ++ Bytes.toBE 4 ((Bytes.ofBE (j.toBytes.drop 12) + 1) % 2 ^ 32))

/-- The encryptions of the first `n` blocks after `j`. -/
def keystream (E : BlockCipher) (j : Block) (n : Nat) : Bytes :=
  ((List.range n).map fun i => (E (inc32^[i + 1] j)).toBytes).flatten

def ciphertext (E : BlockCipher) (nonce : Nonce) (plaintext : Bytes) : Bytes :=
  Bytes.xor plaintext
    ((keystream E (initial nonce) (plaintext.length ⌈/⌉ 16)).take plaintext.length)

theorem toBytes_numberBytes (n : Nat) : (numberBytes n).toBytes = Bytes.toBE 4 n := by
  simp [numberBytes, FixedBytes.toBytes, Vector.toList_ofFn, List.ofFn_succ, Bytes.toBE, Bytes.toLE,
    Nat.shiftRight_eq_div_pow, Nat.div_div_eq_div_mul]

theorem toBytes_counterBlock (nonce : Nonce) (n : Nat) :
    (counterBlock nonce n).toBytes = nonce.toBytes ++ Bytes.toBE 4 n := by
  rw [← toBytes_numberBytes]
  exact Vector.toList_append

theorem initial_eq (nonce : Nonce) : initial nonce = preCounter nonce := by
  have hlen : (nonce.toBytes ++ [0, 0, 0, 1]).length = 16 := by simp
  apply FixedBytes.toBytes_injective
  exact (toBytes_toBlock hlen).trans (toBytes_counterBlock nonce 1).symm

theorem toBytes_incrementBy (k : Nat) (j : Block) :
    (incrementBy k j).toBytes =
      j.toBytes.take 12 ++ Bytes.toBE 4 (Bytes.ofBE (j.toBytes.drop 12) + k) := by
  have hfront : (Vector.ofFn fun i : Fin 12 => j[i.val]).toList = j.toBytes.take 12 := by
    apply List.ext_getElem
    · simp
    · intro i _ _
      simp [FixedBytes.toBytes]
  exact (toBytes_counterBlock _ _).trans (congrArg (· ++ _) hfront)

theorem iterate_inc32 (j : Block) (k : Nat) : inc32^[k] j = incrementBy k j := by
  have hfront : (j.toBytes.take 12).length = 12 := by simp
  apply FixedBytes.toBytes_injective
  rw [toBytes_incrementBy]
  -- the first twelve bytes stay, and the number is reduced again in each step
  induction k with
  | zero =>
    have hlast : (j.toBytes.drop 12).length = 4 := by simp
    have hnumber := Bytes.toBE_ofBE (j.toBytes.drop 12)
    rw [hlast] at hnumber
    rw [Nat.add_zero, hnumber, List.take_append_drop]
    rfl
  | succ k ih =>
    rw [Function.iterate_succ_apply', inc32, ih, List.take_left' hfront, List.drop_left' hfront,
      Bytes.ofBE_toBE, toBytes_toBlock (by simp)]
    congr 1
    apply Bytes.toBE_congr
    omega

theorem ciphertext_eq (E : BlockCipher) (nonce : Nonce) (plaintext : Bytes) :
    ciphertext E nonce plaintext =
      Bytes.xor plaintext (Gcm.keystream E (preCounter nonce) (blockCount plaintext.length)) := by
  have hcount : plaintext.length ⌈/⌉ 16 = blockCount plaintext.length :=
    Nat.ceilDiv_eq_add_pred_div _ _
  simp only [ciphertext, keystream, initial_eq, iterate_inc32, hcount, Bytes.xor_take]
  rfl

/-! ## The tag -/

/-- The bytes with zeros behind them, up to a multiple of 16. -/
def padded (bs : Bytes) : Bytes := bs ++ Bytes.zeros (16 * (bs.length ⌈/⌉ 16) - bs.length)

def authenticated (aad ciphertext : Bytes) : Bytes :=
  padded aad ++ padded ciphertext ++
    Bytes.toBE 8 (8 * aad.length) ++ Bytes.toBE 8 (8 * ciphertext.length)

theorem length_padded (bs : Bytes) : (padded bs).length = 16 * (bs.length ⌈/⌉ 16) := by
  have h := Nat.ceilDiv_eq_add_pred_div bs.length 16
  rw [padded, List.length_append, Bytes.length_zeros]
  omega

theorem dvd_length_padded (bs : Bytes) : 16 ∣ (padded bs).length := by
  rw [length_padded]
  exact Nat.dvd_mul_right 16 _

/-- No shorter padding would do. -/
theorem length_padded_le (bs : Bytes) (k : Nat) (h : 16 ∣ bs.length + k) :
    (padded bs).length ≤ bs.length + k := by
  rw [length_padded, Nat.ceilDiv_eq_add_pred_div]
  omega

theorem padded_eq (bs : Bytes) : padded bs = bs ++ padding bs.length := by
  rw [padded, padding, Nat.ceilDiv_eq_add_pred_div, blockLen]
  congr 2
  omega

theorem authenticated_eq (aad ciphertext : Bytes) :
    authenticated aad ciphertext = (Gcm.authenticated aad ciphertext).flatten := by
  simp [authenticated, Gcm.authenticated, padded_eq, lengthBlock, Nat.mul_comm]

theorem dvd_length_authenticated (aad ciphertext : Bytes) :
    16 ∣ (authenticated aad ciphertext).length := by
  have ha := dvd_length_padded aad
  have hc := dvd_length_padded ciphertext
  simp only [authenticated, List.length_append, Bytes.length_toBE]
  omega

noncomputable def tag (E : BlockCipher) (nonce : Nonce) (aad ciphertext : Bytes) : Bytes :=
  Bytes.xor (E (initial nonce)).toBytes
    (ghash (E (FixedBytes.zero 16)).toBytes (Bytes.blocks 16 (authenticated aad ciphertext)))

end Standard

end StreamDigest.Gcm
