import StreamDigest.Proofs.Algebra.Evaluation
import StreamDigest.Proofs.Poly1305.Prime
import StreamDigest.Proofs.Poly1305.Tag

/-!
# Tags under all multipliers

The residues of a message are its coefficients modulo the prime. The one behind
each piece makes them less than the prime, so that none vanishes, and tells the
piece, so that they tell the message (`eq_of_residues`). A tag shows only the
low 128 bits of the accumulator and the pad: tags with a given difference come
from accumulators with one of eight differences (`exists_window`). Each of
these has at most as many multipliers as the longer message has blocks.
-/

namespace StreamDigest.Poly1305

open Polynomial

namespace Standard

/-! ## Residues -/

/-- The one behind a piece marks its length. -/
theorem log_coefficient (piece : Bytes) : Nat.log 256 (coefficient piece) = piece.length := by
  have hlt := Bytes.ofLE_lt piece
  apply Nat.log_eq_of_pow_le_of_lt_pow
  · rw [coefficient_eq]
    omega
  · rw [coefficient_eq, Nat.pow_succ]
    omega

/-- Pieces have different coefficients, also where they differ by zeros at the end. -/
theorem coefficient_injective : Function.Injective coefficient := by
  intro p q h
  have hlen : p.length = q.length := by rw [← log_coefficient, h, log_coefficient]
  rw [coefficient_eq, coefficient_eq, hlen] at h
  exact Bytes.ofLE_inj hlen (Nat.add_right_cancel h)

theorem coefficient_pos (piece : Bytes) : 0 < coefficient piece := by
  rw [coefficient_eq]
  have := Nat.pow_pos (n := piece.length) (show 0 < 256 by decide)
  omega

theorem coefficient_lt {piece : Bytes} (h : piece.length ≤ 16) : coefficient piece < modulus := by
  have hlt := Bytes.ofLE_lt piece
  have hpow := Nat.pow_le_pow_right (show 0 < 256 by decide) h
  rw [coefficient_eq]
  unfold modulus
  omega

/-- The coefficients of a message modulo the prime. -/
def residues (m : Bytes) : List (ZMod modulus) :=
  (Bytes.segments 16 m).map fun piece => (coefficient piece : ZMod modulus)

theorem length_residues (m : Bytes) : (residues m).length = m.length ⌈/⌉ 16 := by
  rw [residues, List.length_map, Bytes.length_segments]

theorem cast_coefficient_inj {p q : Bytes} (hp : p.length ≤ 16) (hq : q.length ≤ 16)
    (h : (coefficient p : ZMod modulus) = coefficient q) : p = q :=
  coefficient_injective
    (CharP.natCast_injOn_Iio (ZMod modulus) modulus (coefficient_lt hp) (coefficient_lt hq) h)

theorem residues_ne_zero (m : Bytes) : ∀ c ∈ residues m, c ≠ 0 := by
  intro c hc hzero
  obtain ⟨piece, hpiece, rfl⟩ := List.mem_map.1 hc
  rw [ZMod.natCast_eq_zero_iff] at hzero
  exact absurd (Nat.le_of_dvd (coefficient_pos piece) hzero)
    (Nat.not_le.2 (coefficient_lt (Bytes.length_le_of_mem_segments hpiece)))

/-- The residues tell the message, even if a constant is added to their polynomial. -/
theorem eq_of_residues {m m' : Bytes} {d : ZMod modulus}
    (h : messagePolynomial (residues m) = messagePolynomial (residues m') + C d) : m = m' := by
  have h' : messagePolynomial (residues m') = messagePolynomial (residues m) + C (-d) := by
    rw [h, C_neg, add_neg_cancel_right]
  have hlen := le_antisymm (length_le_of_messagePolynomial_eq (residues_ne_zero m) h)
    (length_le_of_messagePolynomial_eq (residues_ne_zero m') h')
  exact Bytes.eq_of_map_segments (by decide)
    (fun i => cast_coefficient_inj (List.length_take_le 16 _) (List.length_take_le 16 _))
    (eq_of_messagePolynomial_eq hlen h)

theorem cast_polynomial (r : Nat) (m : Bytes) :
    (polynomial r (coefficients m) : ZMod modulus) = horner (r : ZMod modulus) (residues m) := by
  have hfold := foldl_horner r 0 (coefficients m)
  rw [Nat.zero_mul, Nat.zero_add] at hfold
  rw [← hfold, horner, coefficients, residues, List.foldl_map, List.foldl_map, ← Nat.cast_zero]
  refine (List.foldl_hom Nat.cast fun h piece => ?_).symm
  push_cast
  rfl

end Standard

/-! ## Multipliers -/

/-- A mask of `n` bits leaves `2 ^ n` numbers as they are. -/
theorem encard_setOf_and_eq_self (mask : ℕ) :
    {y : ℕ | y &&& mask = y}.encard = (2 ^ mask.bitIndices.length : ℕ) := by
  have hbits : {y : ℕ | y &&& mask = y} = Set.preimage Finset.equivBitIndices
      ((Finset.equivBitIndices mask).powerset : Set (Finset ℕ)) := by
    ext y
    simp only [Set.mem_ofPred_eq, Set.mem_preimage, Finset.mem_coe, Finset.mem_powerset,
      Finset.subset_iff, Finset.equivBitIndices_apply, List.mem_toFinset, Nat.mem_bitIndices]
    constructor
    · intro hy i hi
      rw [← hy, Nat.testBit_and, Bool.and_eq_true] at hi
      exact hi.2
    · intro hy
      apply Nat.eq_of_testBit_eq
      intro i
      rw [Nat.testBit_and, Bool.and_eq_left_iff_imp]
      exact @hy i
  rw [hbits, Set.encard_preimage_of_bijective (Equiv.bijective _), Set.encard_coe_eq_coe_finsetCard,
    Finset.card_powerset, Finset.equivBitIndices_apply,
    List.toFinset_card_of_nodup Nat.bitIndices_nodup]

theorem exists_key (s : FixedBytes 16) {y : Nat} (hy : y &&& Standard.clampMask = y) :
    ∃ key : Key, key.toBytes.drop 16 = s.toBytes ∧ Standard.multiplier key = y := by
  obtain ⟨key, hkey⟩ : ∃ key : Key, key.toBytes = Bytes.toLE 16 y ++ s.toBytes :=
    FixedBytes.exists_toBytes (by
      rw [List.length_append, Bytes.length_toLE, s.length_toBytes]
      rfl)
  have hlt : y < 256 ^ 16 := by
    rw [← hy]
    exact Nat.and_le_right.trans_lt (by decide)
  refine ⟨key, ?_, ?_⟩
  · rw [hkey, List.drop_left' (Bytes.length_toLE 16 y)]
  · rw [Standard.multiplier, hkey, List.take_left' (Bytes.length_toLE 16 y), Bytes.ofLE_toLE,
      Nat.mod_eq_of_lt hlt, hy]

/-- The multipliers of the keys with a given second half. -/
def multipliers (s : FixedBytes 16) : Set Limbs :=
  {r | ∃ key : Key, key.toBytes.drop 16 = s.toBytes ∧ (Core.ofKey key).r = r}

theorem narrow_of_mem {s : FixedBytes 16} {r : Limbs} (h : r ∈ multipliers s) : r.Narrow := by
  obtain ⟨key, -, rfl⟩ := h
  exact (Core.at_ofKey key).narrow

/-- Of the 128 bits of a multiplier 106 are free. -/
theorem encard_multipliers (s : FixedBytes 16) : (multipliers s).encard = 2 ^ 106 := by
  have hinj : Set.InjOn Limbs.value (multipliers s) := fun a ha b hb =>
    (narrow_of_mem ha).canonical.eq_of_value (narrow_of_mem hb).canonical
  have himage : Limbs.value '' multipliers s = {y | y &&& Standard.clampMask = y} := by
    ext y
    constructor
    · rintro ⟨_, ⟨key, -, rfl⟩, rfl⟩
      change _ &&& _ = _
      rw [(Core.at_ofKey key).r_eq, Standard.multiplier, Nat.and_assoc, Nat.and_self]
    · intro hy
      obtain ⟨key, hs, hkey⟩ := exists_key s hy
      exact ⟨_, ⟨key, hs, rfl⟩, (Core.at_ofKey key).r_eq.trans hkey⟩
  have hbits : Standard.clampMask.bitIndices.length = 106 := by decide +kernel
  rw [← hinj.encard_image, himage, encard_setOf_and_eq_self, hbits]
  rfl

/-! ## Differences of tags -/

/-- The integers that are `d` modulo `2 ^ 128`, from `-2 ^ 130` up to `2 ^ 130`. -/
def window (d : ℤ) (j : Fin 8) : ℤ := d % 2 ^ 128 + 2 ^ 128 * (j - 4)

/-- Residues with a given difference modulo `2 ^ 128` have one of eight differences. -/
theorem exists_window {a b : ℕ} (ha : a < modulus) (hb : b < modulus) {d : ℤ}
    (h : (a : ℤ) - b ≡ d [ZMOD 2 ^ 128]) : ∃ j, (a : ℤ) = b + window d j := by
  unfold modulus at ha hb
  have hdiv := Int.emod_add_mul_ediv ((a : ℤ) - b) (2 ^ 128)
  rw [h] at hdiv
  have hlow : -4 ≤ ((a : ℤ) - b) / 2 ^ 128 := by omega
  have hhigh : ((a : ℤ) - b) / 2 ^ 128 < 4 := by omega
  refine ⟨⟨(((a : ℤ) - b) / 2 ^ 128 + 4).toNat, by omega⟩, ?_⟩
  rw [window, Int.toNat_of_nonneg (by omega), add_sub_cancel_right]
  omega

theorem ofLE_tag (key : Key) (m : Bytes) :
    (Bytes.ofLE (Standard.tag key m) : ℤ) ≡
      ((Standard.polynomial (Standard.multiplier key) (Standard.coefficients m) % modulus : ℕ) +
        Standard.pad key : ℤ) [ZMOD 2 ^ 128] := by
  have hpow : (256 : ℕ) ^ 16 = 2 ^ 128 := by norm_num
  rw [Standard.tag, Bytes.ofLE_toLE, hpow, Nat.mod_mod]
  push_cast
  exact Int.mod_modEq _ _

/-- Under one key, tags with a given difference come from accumulators with one of eight
differences. -/
theorem exists_horner_of_tag {key : Key} {m m' : Bytes} {d : ℤ}
    (h : (Bytes.ofLE (Standard.tag key m) : ℤ) - Bytes.ofLE (Standard.tag key m') ≡ d
      [ZMOD 2 ^ 128]) :
    ∃ j, horner (Standard.multiplier key : ZMod modulus) (Standard.residues m) =
      horner (Standard.multiplier key : ZMod modulus) (Standard.residues m') + window d j := by
  have hpos : 0 < modulus := by decide
  have hdiff := ((ofLE_tag key m).sub (ofLE_tag key m')).symm.trans h
  rw [add_sub_add_right_eq_sub] at hdiff
  obtain ⟨j, hj⟩ := exists_window (Nat.mod_lt _ hpos) (Nat.mod_lt _ hpos) hdiff
  refine ⟨j, ?_⟩
  rw [← Standard.cast_polynomial, ← Standard.cast_polynomial, ← ZMod.natCast_mod,
    ← ZMod.natCast_mod (Standard.polynomial _ (Standard.coefficients m'))]
  have hcast := congrArg (Int.cast (R := ZMod modulus)) hj
  rwa [Int.cast_add, Int.cast_natCast, Int.cast_natCast] at hcast

/-- Some client has a stream with this key that took in `m` and has the digest `t`. -/
def IsTag (lanes : LaneWidth) (size : Nat) (key : Key) (m t : Bytes) : Prop :=
  ∃ actions, ∃ x ∈ run (backend.withBuffer lanes size) actions,
    x.params = key ∧ x.message = m ∧ x.stream.digest = .ok t

theorem isTag_iff (lanes : LaneWidth) {size : Nat} (hs : 0 < size) (hd : 16 ∣ size) {key : Key}
    {m t : Bytes} :
    IsTag lanes size key m t ↔ m.length ≤ backend.maxInput ∧ t = Standard.tag key m := by
  have hB := aligned lanes hs hd
  have hdigest : ∀ {actions : List (Action Key)},
      ∀ x ∈ run (backend.withBuffer lanes size) actions,
        x.message.length ≤ backend.maxInput ∧
          x.stream.digest = .ok (Standard.tag x.params x.message) := by
    intro actions x hx
    obtain ⟨pieces, -, h⟩ := sound_of_mem_run hB hx
    exact ⟨h.within, (tag_of_absorbed hB h).1⟩
  constructor
  · rintro ⟨actions, x, hx, rfl, rfl, ht⟩
    obtain ⟨hm, htag⟩ := hdigest x hx
    rw [htag] at ht
    cases ht
    exact ⟨hm, rfl⟩
  · rintro ⟨hm, rfl⟩
    have hinit : (backend.withBuffer lanes size).init key = .ok (Core.ofKey key) := rfl
    obtain ⟨x, hx, rfl, rfl⟩ := exists_mem_run hB hinit hm
    exact ⟨_, x, hx, rfl, rfl, (hdigest x hx).2⟩

/-- The multipliers of the keys with second half `s` under which the tags of `m` and `m'`
differ by `d`. -/
def multipliersWithDifference (lanes : LaneWidth) (size : Nat) (s : FixedBytes 16)
    (m m' : Bytes) (d : ℤ) : Set Limbs :=
  {r | ∃ (key : Key) (t t' : Bytes), key.toBytes.drop 16 = s.toBytes ∧ (Core.ofKey key).r = r ∧
    IsTag lanes size key m t ∧ IsTag lanes size key m' t' ∧
    (Bytes.ofLE t : ℤ) - Bytes.ofLE t' ≡ d [ZMOD 2 ^ 128]}

/-- Messages that are not the same have accumulators with a given difference under few
multipliers. -/
theorem encard_multipliers_horner_le (s : FixedBytes 16) {m m' : Bytes} (hne : m ≠ m') {len : Nat}
    (hm : m.length ≤ len) (hm' : m'.length ≤ len) (d : ZMod modulus) :
    {r ∈ multipliers s | horner (r.value : ZMod modulus) (Standard.residues m) =
      horner (r.value : ZMod modulus) (Standard.residues m') + d}.encard ≤ (len ⌈/⌉ 16 : ℕ) := by
  have hroots := encard_keys_le (d := d) fun h => hne (Standard.eq_of_residues h)
  have hlen : max (Standard.residues m).length (Standard.residues m').length ≤ len ⌈/⌉ 16 := by
    rw [Standard.length_residues, Standard.length_residues]
    simp only [Nat.ceilDiv_eq_add_pred_div]
    omega
  have hinj : Set.InjOn (fun r : Limbs => (r.value : ZMod modulus)) (multipliers s) := by
    intro a ha b hb h
    have hlt : ∀ r ∈ multipliers s, r.value < modulus := by
      intro r hr
      obtain ⟨h₀, h₁, h₂⟩ := narrow_of_mem hr
      unfold Limbs.value modulus
      omega
    exact (narrow_of_mem ha).canonical.eq_of_value (narrow_of_mem hb).canonical
      (CharP.natCast_injOn_Iio (ZMod modulus) modulus (hlt a ha) (hlt b hb) h)
  refine le_trans ?_ (hroots.trans (Nat.cast_le.2 hlen))
  exact Set.encard_le_encard_of_injOn (fun r hr => hr.2) (hinj.mono fun r hr => hr.1)

/-- **Tags are almost universal.** Of the `2 ^ 106` multipliers few give the tags of two
messages a given difference, eight for each block of the longer message. -/
theorem encard_multipliers_le (lanes : LaneWidth) {size : Nat} (hs : 0 < size) (hd : 16 ∣ size)
    (s : FixedBytes 16) {m m' : Bytes} (hne : m ≠ m') {len : Nat} (hm : m.length ≤ len)
    (hm' : m'.length ≤ len) (d : ℤ) :
    (multipliers s).encard = 2 ^ 106 ∧
    (∀ (key : Key) (x : Bytes), x.length ≤ backend.maxInput →
      ∃ t : Bytes, t.length = 16 ∧ ∀ u, IsTag lanes size key x u ↔ u = t) ∧
    (multipliersWithDifference lanes size s m m' d).encard ≤ (8 * (len ⌈/⌉ 16) : ℕ) := by
  refine ⟨encard_multipliers s, ?_, ?_⟩
  · intro key x hx
    refine ⟨Standard.tag key x, Bytes.length_toLE 16 _, fun u => ?_⟩
    rw [isTag_iff lanes hs hd]
    exact and_iff_right hx
  · have hcover : multipliersWithDifference lanes size s m m' d ⊆
        ⋃ j, {r ∈ multipliers s | horner (r.value : ZMod modulus) (Standard.residues m) =
          horner (r.value : ZMod modulus) (Standard.residues m') + window d j} := by
      rintro _ ⟨key, t, t', hkey, rfl, ht, ht', hdiff⟩
      rw [((isTag_iff lanes hs hd).1 ht).2, ((isTag_iff lanes hs hd).1 ht').2] at hdiff
      obtain ⟨j, hj⟩ := exists_horner_of_tag hdiff
      refine Set.mem_iUnion.2 ⟨j, ⟨key, hkey, rfl⟩, ?_⟩
      rw [(Core.at_ofKey key).r_eq]
      exact hj
    calc (multipliersWithDifference lanes size s m m' d).encard
        ≤ _ := Set.encard_le_encard hcover
      _ ≤ ∑ j, _ := Set.encard_iUnion_le_of_fintype _
      _ ≤ ∑ _ : Fin 8, ((len ⌈/⌉ 16 : ℕ) : ℕ∞) :=
        Finset.sum_le_sum fun j _ => encard_multipliers_horner_le s hne hm hm' _
      _ = (8 * (len ⌈/⌉ 16) : ℕ) := by simp

/-- A message and the same with a zero byte behind it. -/
theorem encard_multipliers_le_of_trailing_zero :
    ([1] : Bytes) ≠ [1, 0] ∧ ([1] : Bytes).length ≤ 2 ∧ ([1, 0] : Bytes).length ≤ 2 ∧
    (multipliersWithDifference .m32 16 (FixedBytes.zero 16) [1] [1, 0] 0).encard ≤ 8 := by
  have hne : ([1] : Bytes) ≠ [1, 0] := by decide
  refine ⟨hne, by decide, by decide, ?_⟩
  exact (encard_multipliers_le .m32 (by decide) (by decide) (FixedBytes.zero 16) hne
    (show ([1] : Bytes).length ≤ 2 by decide) (by decide) 0).2.2

end StreamDigest.Poly1305
