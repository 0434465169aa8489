import StreamDigest.Bytes.Endian
import StreamDigest.Proofs.Bytes.Slices

/-!
# Numbers and their bytes

Appending byte strings is adding numbers at the right power of 256
(`ofLE_append`), and the bytes of a number fall apart the same way
(`toLE_add`).
-/

namespace StreamDigest.Bytes

theorem ofLE_append (as bs : Bytes) :
    ofLE (as ++ bs) = ofLE as + 256 ^ as.length * ofLE bs := by
  induction as with
  | nil => simp [ofLE]
  | cons a as ih =>
    rw [List.cons_append, ofLE, ih, ofLE, List.length_cons, pow_succ]
    ring

theorem ofLE_zeros (n : Nat) : ofLE (zeros n) = 0 := by
  induction n with
  | zero => rfl
  | succ n ih =>
    have hcons : zeros (n + 1) = 0 :: zeros n := rfl
    rw [hcons, ofLE, ih]
    rfl

theorem ofLE_padTo (n : Nat) (bs : Bytes) : ofLE (padTo n bs) = ofLE bs := by
  rw [padTo, ofLE_append, ofLE_zeros, Nat.mul_zero, Nat.add_zero]

theorem ofLE_lt (bs : Bytes) : ofLE bs < 256 ^ bs.length := by
  induction bs with
  | nil => exact Nat.one_pos
  | cons b bs ih =>
    have hb : b.toNat < 256 := b.toNat_lt
    rw [ofLE, List.length_cons, pow_succ]
    omega

/-- A number of `n + k` bytes is its first `n` bytes and those behind them. -/
theorem ofLE_take_drop {n : Nat} {bs : Bytes} (h : n ≤ bs.length) :
    ofLE bs = ofLE (bs.take n) + 256 ^ n * ofLE (bs.drop n) := by
  have hlen : (bs.take n).length = n := List.length_take_of_le h
  conv_lhs => rw [← List.take_append_drop n bs]
  rw [ofLE_append, hlen]

theorem toLE_add (n k x : Nat) : toLE (n + k) x = toLE n x ++ toLE k (x / 256 ^ n) := by
  induction n generalizing x with
  | zero => simp [toLE]
  | succ n ih =>
    rw [Nat.add_right_comm, toLE, ih, toLE, List.cons_append, Nat.div_div_eq_div_mul, pow_succ']

/-- Only the low `n` bytes of a number are written. -/
theorem toLE_congr {n x y : Nat} (h : x % 256 ^ n = y % 256 ^ n) : toLE n x = toLE n y := by
  induction n generalizing x y with
  | zero => rfl
  | succ n ih =>
    rw [pow_succ'] at h
    have hbyte : x % 256 = y % 256 := by
      have := congrArg (· % 256) h
      simpa only [Nat.mod_mul_right_mod] using this
    have hrest : x / 256 % 256 ^ n = y / 256 % 256 ^ n := by
      rw [← Nat.mod_mul_right_div_self, ← Nat.mod_mul_right_div_self, h]
    rw [toLE, toLE, ih hrest]
    congr 1
    exact UInt8.toNat_inj.1 (by simpa using hbyte)

/-- The bytes of two words are those of the number they make. -/
theorem toLE_words {t₀ : Nat} (h : t₀ < 2 ^ 64) (t₁ : Nat) :
    toLE 16 (t₀ + 2 ^ 64 * t₁) = toLE 8 t₀ ++ toLE 8 t₁ := by
  have hlow : toLE 8 (t₀ + 2 ^ 64 * t₁) = toLE 8 t₀ := by
    apply toLE_congr
    norm_num
  have hhigh : (t₀ + 2 ^ 64 * t₁) / 256 ^ 8 = t₁ := by omega
  refine (toLE_add 8 8 _).trans ?_
  rw [hlow, hhigh]

/-- The bytes of a number that was read from bytes. -/
theorem toLE_ofLE (bs : Bytes) : toLE bs.length (ofLE bs) = bs := by
  induction bs with
  | nil => rfl
  | cons b bs ih =>
    have hb : b.toNat < 256 := b.toNat_lt
    have hrest : (b.toNat + 256 * ofLE bs) / 256 = ofLE bs := by omega
    have hbyte : UInt8.ofNat (b.toNat + 256 * ofLE bs) = b := by
      apply UInt8.toNat_inj.1
      rw [UInt8.toNat_ofNat']
      omega
    rw [List.length_cons, ofLE, toLE, hrest, ih, hbyte]

/-- At a given length the number tells the bytes. -/
theorem ofLE_inj {as bs : Bytes} (hlen : as.length = bs.length) (h : ofLE as = ofLE bs) :
    as = bs := by
  rw [← toLE_ofLE as, hlen, h, toLE_ofLE]

@[simp] theorem length_toLE (n x : Nat) : (toLE n x).length = n := by
  induction n generalizing x with
  | zero => rfl
  | succ n ih => rw [toLE, List.length_cons, ih]

theorem ofLE_toLE (n x : Nat) : ofLE (toLE n x) = x % 256 ^ n := by
  induction n generalizing x with
  | zero => simp [toLE, ofLE, Nat.mod_one]
  | succ n ih =>
    rw [toLE, ofLE, ih, pow_succ', Nat.mod_mul]
    simp

/-! ## Most significant byte first -/

@[simp] theorem length_toBE (n x : Nat) : (toBE n x).length = n := by simp [toBE]

theorem ofBE_toBE (n x : Nat) : ofBE (toBE n x) = x % 256 ^ n := by
  rw [ofBE, toBE, List.reverse_reverse, ofLE_toLE]

theorem toBE_ofBE (bs : Bytes) : toBE bs.length (ofBE bs) = bs := by
  rw [toBE, ofBE, ← List.length_reverse, toLE_ofLE, List.reverse_reverse]

theorem ofBE_lt (bs : Bytes) : ofBE bs < 256 ^ bs.length := by
  simpa [ofBE] using ofLE_lt bs.reverse

theorem toBE_congr {n x y : Nat} (h : x % 256 ^ n = y % 256 ^ n) : toBE n x = toBE n y := by
  rw [toBE, toBE, toLE_congr h]

end StreamDigest.Bytes
