import StreamDigest.Proofs.Poly1305.Standard

/-!
# Numbers in limbs and their values

`Limbs.value` is the number that limbs stand for. Masks are remainders and
shifts are quotients by powers of two, so each operation on limbs becomes an
equation between natural numbers, and `omega` proves it once it is known that
no word overflows. The bounds say so: `Limbs.Partial` is what the limbs of the
accumulator keep between blocks, and `Limbs.Narrow` what those of a number of
128 bits do, such as the multiplier and the pad.
-/

namespace StreamDigest.Poly1305

/-! ## Words -/

section
variable {x y : Word}

theorem toNat_and_mask44 (x : Word) : (x &&& mask44).toNat = x.toNat % 2 ^ 44 := by
  rw [BitVec.toNat_and]
  exact Nat.and_two_pow_sub_one_eq_mod x.toNat 44

theorem toNat_and_mask42 (x : Word) : (x &&& mask42).toNat = x.toNat % 2 ^ 42 := by
  rw [BitVec.toNat_and]
  exact Nat.and_two_pow_sub_one_eq_mod x.toNat 42

theorem toNat_shiftRight (x : Word) (n : Nat) : (x >>> n).toNat = x.toNat / 2 ^ n := by
  rw [BitVec.toNat_ushiftRight, Nat.shiftRight_eq_div_pow]

theorem toNat_add (h : x.toNat + y.toNat < 2 ^ 64) : (x + y).toNat = x.toNat + y.toNat :=
  BitVec.toNat_add_of_lt h

theorem toNat_add_carry (h : x.toNat < 2 ^ 63) (y : Word) :
    (x + (y >>> 44)).toNat = x.toNat + y.toNat / 2 ^ 44 := by
  have hy := y.isLt
  rw [← toNat_shiftRight]
  apply toNat_add
  rw [toNat_shiftRight]
  omega

theorem toNat_mul_small (x : Word) (n : Nat) (h : x.toNat * n < 2 ^ 64) :
    (x * BitVec.ofNat 64 n).toNat = x.toNat * n := by
  rcases Nat.eq_zero_or_pos x.toNat with h0 | hpos
  · rw [BitVec.toNat_mul, h0, Nat.zero_mul, Nat.zero_mul, Nat.zero_mod]
  · have hn : n < 2 ^ 64 := (Nat.le_mul_of_pos_left n hpos).trans_lt h
    rw [BitVec.toNat_mul, BitVec.toNat_ofNat, Nat.mod_eq_of_lt hn, Nat.mod_eq_of_lt h]

/-- A word above the bits of another is added by an or. -/
theorem toNat_or_shiftLeft {k : Nat} (hk : k ≤ 64) (hx : x.toNat < 2 ^ k) (y : Word) :
    (x ||| (y <<< k)).toNat = x.toNat + 2 ^ k * y.toNat % 2 ^ 64 := by
  have hsplit : 2 ^ k * y.toNat % 2 ^ 64 = (y.toNat % 2 ^ (64 - k)) <<< k := by
    rw [Nat.shiftLeft_eq, ← Nat.mul_mod_mul_right, ← pow_add, Nat.sub_add_cancel hk,
      Nat.mul_comm]
  have hshift : (y <<< k).toNat = (y.toNat % 2 ^ (64 - k)) <<< k := by
    rw [BitVec.toNat_shiftLeft, Nat.shiftLeft_eq, Nat.mul_comm, hsplit]
  rw [BitVec.toNat_or, hshift, hsplit, Nat.add_comm, Nat.shiftLeft_add_eq_or_of_lt hx, Nat.or_comm]

theorem toNat_mul (x y : Word) : (mul x y).toNat = x.toNat * y.toNat := by
  have hx := x.isLt
  have hy := y.isLt
  have hlt : x.toNat * y.toNat < 2 ^ 128 := (Nat.mul_lt_mul'' hx hy).trans_eq (by norm_num)
  rw [mul, BitVec.toNat_mul, BitVec.toNat_setWidth, BitVec.toNat_setWidth,
    Nat.mod_eq_of_lt (show x.toNat < 2 ^ 128 by omega),
    Nat.mod_eq_of_lt (show y.toNat < 2 ^ 128 by omega), Nat.mod_eq_of_lt hlt]

end

section
variable {d e : Wide}

theorem toNat_lo_and_mask44 (d : Wide) : (lo d &&& mask44).toNat = d.toNat % 2 ^ 44 := by
  rw [toNat_and_mask44, lo, BitVec.toNat_setWidth]
  omega

theorem toNat_lo_and_mask42 (d : Wide) : (lo d &&& mask42).toNat = d.toNat % 2 ^ 42 := by
  rw [toNat_and_mask42, lo, BitVec.toNat_setWidth]
  omega

theorem toNat_shr {n : Nat} (h : d.toNat / 2 ^ n < 2 ^ 64) : (shr d n).toNat = d.toNat / 2 ^ n := by
  rw [shr, BitVec.toNat_setWidth, BitVec.toNat_ushiftRight, Nat.shiftRight_eq_div_pow,
    Nat.mod_eq_of_lt h]

theorem toNat_add_wide (h : d.toNat + e.toNat < 2 ^ 128) :
    (d + e).toNat = d.toNat + e.toNat := BitVec.toNat_add_of_lt h

theorem toNat_products {a b c x y z : Word}
    (h : a.toNat * x.toNat + b.toNat * y.toNat + c.toNat * z.toNat < 2 ^ 128) :
    (mul a x + mul b y + mul c z).toNat =
      a.toNat * x.toNat + b.toNat * y.toNat + c.toNat * z.toNat := by
  have hab : (mul a x + mul b y).toNat = a.toNat * x.toNat + b.toNat * y.toNat := by
    rw [← toNat_mul, ← toNat_mul]
    apply toNat_add_wide
    rw [toNat_mul, toNat_mul]
    omega
  rw [← hab, ← toNat_mul c z] at h ⊢
  exact toNat_add_wide h

theorem toNat_widen (x : Word) : (x.setWidth 128 : Wide).toNat = x.toNat := by
  rw [BitVec.toNat_setWidth]
  exact Nat.mod_eq_of_lt (x.isLt.trans (by decide))

end

/-! ## Values and bounds -/

namespace Limbs

/-- The number that limbs stand for. -/
def value (h : Limbs) : Nat := h.x₀.toNat + 2 ^ 44 * h.x₁.toNat + 2 ^ 88 * h.x₂.toNat

/-- The limbs of an accumulator between blocks: within their bits, up to a carry
that stayed in the middle limb. -/
structure Partial (h : Limbs) : Prop where
  x₀_lt : h.x₀.toNat < 2 ^ 44
  x₁_lt : h.x₁.toNat < 2 ^ 44 + 2 ^ 7
  x₂_lt : h.x₂.toNat < 2 ^ 42

theorem partial_zero : zero.Partial := ⟨by decide, by decide, by decide⟩

/-- The limbs of a number of 128 bits. -/
structure Narrow (r : Limbs) : Prop where
  x₀_lt : r.x₀.toNat < 2 ^ 44
  x₁_lt : r.x₁.toNat < 2 ^ 44
  x₂_lt : r.x₂.toNat < 2 ^ 40

/-- All limbs are within their bits. -/
structure Canonical (h : Limbs) : Prop where
  x₀_lt : h.x₀.toNat < 2 ^ 44
  x₁_lt : h.x₁.toNat < 2 ^ 44
  x₂_lt : h.x₂.toNat < 2 ^ 42

theorem Narrow.canonical {r : Limbs} (h : r.Narrow) : r.Canonical :=
  ⟨h.x₀_lt, h.x₁_lt, h.x₂_lt.trans (by decide)⟩

theorem Canonical.value_lt {h : Limbs} (hc : h.Canonical) : h.value < 2 ^ 130 := by
  have := hc.x₀_lt
  have := hc.x₁_lt
  have := hc.x₂_lt
  unfold value
  omega

/-- Limbs within their bits are told apart by their values. -/
theorem Canonical.eq_of_value {a b : Limbs} (ha : a.Canonical) (hb : b.Canonical)
    (h : a.value = b.value) : a = b := by
  obtain ⟨a₀, a₁, a₂⟩ := ha
  obtain ⟨b₀, b₁, b₂⟩ := hb
  unfold value at h
  have h₀ : a.x₀ = b.x₀ := BitVec.eq_of_toNat_eq (by omega)
  have h₁ : a.x₁ = b.x₁ := BitVec.eq_of_toNat_eq (by omega)
  have h₂ : a.x₂ = b.x₂ := BitVec.eq_of_toNat_eq (by omega)
  rw [show a = ⟨a.x₀, a.x₁, a.x₂⟩ from rfl, h₀, h₁, h₂]

/-! ## Words to limbs and back -/

theorem toNat_ofWords (t₀ t₁ : Word) :
    (ofWords t₀ t₁).x₀.toNat = t₀.toNat % 2 ^ 44 ∧
      (ofWords t₀ t₁).x₁.toNat = (t₀.toNat / 2 ^ 44 + 2 ^ 20 * t₁.toNat) % 2 ^ 44 ∧
      (ofWords t₀ t₁).x₂.toNat = t₁.toNat / 2 ^ 24 := by
  have h₀ := t₀.isLt
  have h₁ := t₁.isLt
  have hhigh : (t₀ >>> 44).toNat < 2 ^ 20 := by
    rw [toNat_shiftRight]
    omega
  refine ⟨toNat_and_mask44 t₀, ?_, ?_⟩
  · rw [ofWords, toNat_and_mask44, toNat_or_shiftLeft (by decide) hhigh, toNat_shiftRight]
    omega
  · rw [ofWords, toNat_and_mask42, toNat_shiftRight]
    omega

theorem value_ofWords (t₀ t₁ : Word) :
    (ofWords t₀ t₁).value = t₀.toNat + 2 ^ 64 * t₁.toNat := by
  obtain ⟨h₀, h₁, h₂⟩ := toNat_ofWords t₀ t₁
  have := t₀.isLt
  have := t₁.isLt
  rw [value, h₀, h₁, h₂]
  omega

theorem narrow_ofWords (t₀ t₁ : Word) : (ofWords t₀ t₁).Narrow := by
  obtain ⟨h₀, h₁, h₂⟩ := toNat_ofWords t₀ t₁
  have := t₁.isLt
  refine ⟨?_, ?_, ?_⟩
  · rw [h₀]; omega
  · rw [h₁]; omega
  · rw [h₂]; omega

theorem toNat_toWords {h : Limbs} (hc : h.Canonical) :
    h.toWords.1.toNat + 2 ^ 64 * h.toWords.2.toNat = h.value % 2 ^ 128 := by
  have h₀ := hc.x₀_lt
  have h₁ := hc.x₁_lt
  have h₂ := hc.x₂_lt
  have hmiddle : (h.x₁ >>> 20).toNat < 2 ^ 24 := by
    rw [toNat_shiftRight]
    omega
  have hlow : h.toWords.1.toNat = h.x₀.toNat + 2 ^ 44 * h.x₁.toNat % 2 ^ 64 :=
    toNat_or_shiftLeft (by decide) h₀ h.x₁
  have hhigh : h.toWords.2.toNat =
      (h.x₁ >>> 20).toNat + 2 ^ 24 * h.x₂.toNat % 2 ^ 64 :=
    toNat_or_shiftLeft (by decide) hmiddle h.x₂
  rw [hlow, hhigh, toNat_shiftRight, value]
  omega

/-! ## Addition and multiplication -/

/-- The limbs of a block with the bit behind it. -/
structure Block (m : Limbs) : Prop where
  x₀_lt : m.x₀.toNat < 2 ^ 44
  x₁_lt : m.x₁.toNat < 2 ^ 44
  x₂_lt : m.x₂.toNat < 2 ^ 41

/-- The limbs of an accumulator that a block was added to. -/
structure Loaded (h : Limbs) : Prop where
  x₀_lt : h.x₀.toNat < 2 ^ 45
  x₁_lt : h.x₁.toNat < 2 ^ 45 + 2 ^ 7
  x₂_lt : h.x₂.toNat < 2 ^ 42 + 2 ^ 41

theorem add_spec {h m : Limbs} (hh : h.Partial) (hm : m.Block) :
    (h.add m).Loaded ∧ (h.add m).value = h.value + m.value := by
  obtain ⟨h₀, h₁, h₂⟩ := hh
  obtain ⟨m₀, m₁, m₂⟩ := hm
  have hx₀ : (h.add m).x₀.toNat = h.x₀.toNat + m.x₀.toNat := toNat_add (by omega)
  have hx₁ : (h.add m).x₁.toNat = h.x₁.toNat + m.x₁.toNat := toNat_add (by omega)
  have hx₂ : (h.add m).x₂.toNat = h.x₂.toNat + m.x₂.toNat := toNat_add (by omega)
  refine ⟨⟨by omega, by omega, by omega⟩, ?_⟩
  rw [value, value, value, hx₀, hx₁, hx₂]
  ring

/-- The sums of products do not overflow. -/
theorem toNat_product {h r : Limbs} (hh : h.Loaded) (hr : r.Narrow) :
    ((product h r).d₀.toNat = h.x₀.toNat * r.x₀.toNat + h.x₁.toNat * (r.x₂.toNat * 20) +
        h.x₂.toNat * (r.x₁.toNat * 20) ∧
      (product h r).d₁.toNat = h.x₀.toNat * r.x₁.toNat + h.x₁.toNat * r.x₀.toNat +
        h.x₂.toNat * (r.x₂.toNat * 20) ∧
      (product h r).d₂.toNat = h.x₀.toNat * r.x₂.toNat + h.x₁.toNat * r.x₁.toNat +
        h.x₂.toNat * r.x₀.toNat) ∧
    (product h r).d₀.toNat < 2 ^ 92 ∧ (product h r).d₁.toNat < 2 ^ 91 ∧
      (product h r).d₂.toNat < 41 * 2 ^ 84 := by
  obtain ⟨h₀, h₁, h₂⟩ := hh
  obtain ⟨r₀, r₁, r₂⟩ := hr
  have hs₁ : (r.x₁ * 20).toNat = r.x₁.toNat * 20 := toNat_mul_small r.x₁ 20 (by omega)
  have hs₂ : (r.x₂ * 20).toNat = r.x₂.toNat * 20 := toNat_mul_small r.x₂ 20 (by omega)
  have b₁ : r.x₁.toNat * 20 < 2 ^ 44 * 20 := by omega
  have b₂ : r.x₂.toNat * 20 < 2 ^ 40 * 20 := by omega
  have h₀r₀ := Nat.mul_lt_mul'' h₀ r₀
  have h₀r₁ := Nat.mul_lt_mul'' h₀ r₁
  have h₀r₂ := Nat.mul_lt_mul'' h₀ r₂
  have h₁r₀ := Nat.mul_lt_mul'' h₁ r₀
  have h₁r₁ := Nat.mul_lt_mul'' h₁ r₁
  have h₁s₂ := Nat.mul_lt_mul'' h₁ b₂
  have h₂r₀ := Nat.mul_lt_mul'' h₂ r₀
  have h₂s₁ := Nat.mul_lt_mul'' h₂ b₁
  have h₂s₂ := Nat.mul_lt_mul'' h₂ b₂
  have hd₀ : (product h r).d₀.toNat = h.x₀.toNat * r.x₀.toNat +
      h.x₁.toNat * (r.x₂.toNat * 20) + h.x₂.toNat * (r.x₁.toNat * 20) := by
    rw [← hs₁, ← hs₂]
    apply toNat_products
    rw [hs₁, hs₂]
    omega
  have hd₁ : (product h r).d₁.toNat = h.x₀.toNat * r.x₁.toNat +
      h.x₁.toNat * r.x₀.toNat + h.x₂.toNat * (r.x₂.toNat * 20) := by
    rw [← hs₂]
    apply toNat_products
    rw [hs₂]
    omega
  have hd₂ : (product h r).d₂.toNat = h.x₀.toNat * r.x₂.toNat +
      h.x₁.toNat * r.x₁.toNat + h.x₂.toNat * r.x₀.toNat := by
    apply toNat_products
    omega
  refine ⟨⟨hd₀, hd₁, hd₂⟩, ?_, ?_, ?_⟩
  · rw [hd₀]; omega
  · rw [hd₁]; omega
  · rw [hd₂]; omega

end Limbs

namespace Sums

theorem toNat_carryUp {d : Sums} (h₀ : d.d₀.toNat < 2 ^ 92) (h₁ : d.d₁.toNat < 2 ^ 91)
    (h₂ : d.d₂.toNat < 41 * 2 ^ 84) :
    d.carryUp.d₀.toNat = d.d₀.toNat ∧
      d.carryUp.d₁.toNat = d.d₁.toNat + d.d₀.toNat / 2 ^ 44 ∧
      d.carryUp.d₂.toNat = d.d₂.toNat + (d.d₁.toNat + d.d₀.toNat / 2 ^ 44) / 2 ^ 44 := by
  have hc₀ : ((shr d.d₀ 44).setWidth 128 : Wide).toNat = d.d₀.toNat / 2 ^ 44 := by
    rw [toNat_widen, toNat_shr (by omega)]
  have hd₁ : d.carryUp.d₁.toNat = d.d₁.toNat + d.d₀.toNat / 2 ^ 44 := by
    rw [carryUp, toNat_add_wide (by omega), hc₀]
  have hc₁ : ((shr d.carryUp.d₁ 44).setWidth 128 : Wide).toNat =
      (d.d₁.toNat + d.d₀.toNat / 2 ^ 44) / 2 ^ 44 := by
    rw [toNat_widen, toNat_shr (by omega), hd₁]
  have hlt : d.d₂.toNat + ((shr d.carryUp.d₁ 44).setWidth 128 : Wide).toNat < 2 ^ 128 := by
    rw [hc₁]
    omega
  exact ⟨rfl, hd₁, (toNat_add_wide hlt).trans (by rw [hc₁])⟩

theorem toNat_fold {d : Sums} (h : d.d₂.toNat < 2 ^ 100) :
    d.fold.x₀.toNat = (d.d₀.toNat % 2 ^ 44 + d.d₂.toNat / 2 ^ 42 * 5) % 2 ^ 44 ∧
      d.fold.x₁.toNat =
        d.d₁.toNat % 2 ^ 44 + (d.d₀.toNat % 2 ^ 44 + d.d₂.toNat / 2 ^ 42 * 5) / 2 ^ 44 ∧
      d.fold.x₂.toNat = d.d₂.toNat % 2 ^ 42 := by
  have hc : (shr d.d₂ 42 * 5).toNat = d.d₂.toNat / 2 ^ 42 * 5 := by
    have hshr : (shr d.d₂ 42).toNat = d.d₂.toNat / 2 ^ 42 := toNat_shr (by omega)
    rw [← hshr]
    exact toNat_mul_small _ 5 (by omega)
  have hlow : ((lo d.d₀ &&& mask44) + shr d.d₂ 42 * 5).toNat =
      d.d₀.toNat % 2 ^ 44 + d.d₂.toNat / 2 ^ 42 * 5 := by
    rw [← hc, ← toNat_lo_and_mask44]
    apply toNat_add
    rw [toNat_lo_and_mask44, hc]
    omega
  refine ⟨?_, ?_, toNat_lo_and_mask42 d.d₂⟩
  · rw [← hlow]
    exact toNat_and_mask44 _
  · have hsmall : (lo d.d₁ &&& mask44).toNat < 2 ^ 63 := by
      rw [toNat_lo_and_mask44]
      omega
    rw [← hlow, ← toNat_lo_and_mask44]
    exact toNat_add_carry hsmall _

end Sums

namespace Limbs

/-- **Multiplication is exact modulo `p`** and hands back a partly reduced number. -/
theorem mulMod_spec {h r : Limbs} (hh : h.Loaded) (hr : r.Narrow) :
    (h.mulMod r).Partial ∧ (h.mulMod r).value ≡ h.value * r.value [MOD modulus] := by
  obtain ⟨⟨p₀, p₁, p₂⟩, b₀, b₁, b₂⟩ := toNat_product hh hr
  obtain ⟨c₀, c₁, c₂⟩ := Sums.toNat_carryUp b₀ b₁ b₂
  obtain ⟨f₀, f₁, f₂⟩ := Sums.toNat_fold
    (show (product h r).carryUp.d₂.toNat < 2 ^ 100 by omega)
  constructor
  · refine ⟨?_, ?_, ?_⟩
    · rw [mulMod, f₀]; omega
    · rw [mulMod, f₁]; omega
    · rw [mulMod, f₂]; omega
  · -- what the fold takes off the top comes back five times at the low end
    have hfold : (h.mulMod r).value + modulus * ((product h r).carryUp.d₂.toNat / 2 ^ 42) =
        (product h r).d₀.toNat + 2 ^ 44 * (product h r).d₁.toNat +
          2 ^ 88 * (product h r).d₂.toNat := by
      rw [mulMod, value, f₀, f₁, f₂, modulus]
      omega
    -- and so do the products beyond `2 ^ 132`, twenty times
    have hproduct : (product h r).d₀.toNat + 2 ^ 44 * (product h r).d₁.toNat +
          2 ^ 88 * (product h r).d₂.toNat +
        modulus * (4 * (h.x₁.toNat * r.x₂.toNat + h.x₂.toNat * r.x₁.toNat +
          2 ^ 44 * (h.x₂.toNat * r.x₂.toNat))) = h.value * r.value := by
      rw [p₀, p₁, p₂, value, value, modulus]
      norm_num
      ring
    rw [← hproduct, ← hfold, Nat.add_assoc, ← Nat.mul_add]
    exact (Nat.add_mul_mod_self_left _ _ _).symm

/-! ## Reduction -/

theorem toNat_carry {h : Limbs} (h₀ : h.x₀.toNat < 2 ^ 44) (h₁ : h.x₁.toNat < 2 ^ 45)
    (h₂ : h.x₂.toNat < 2 ^ 42) :
    h.carry.x₀.toNat =
        (h.x₀.toNat + (h.x₂.toNat + h.x₁.toNat / 2 ^ 44) / 2 ^ 42 * 5) % 2 ^ 44 ∧
      h.carry.x₁.toNat = h.x₁.toNat % 2 ^ 44 +
        (h.x₀.toNat + (h.x₂.toNat + h.x₁.toNat / 2 ^ 44) / 2 ^ 42 * 5) / 2 ^ 44 ∧
      h.carry.x₂.toNat = (h.x₂.toNat + h.x₁.toNat / 2 ^ 44) % 2 ^ 42 := by
  have htop : (h.x₂ + (h.x₁ >>> 44)).toNat = h.x₂.toNat + h.x₁.toNat / 2 ^ 44 :=
    toNat_add_carry (by omega) h.x₁
  have hc : (((h.x₂ + (h.x₁ >>> 44)) >>> 42) * 5).toNat =
      (h.x₂.toNat + h.x₁.toNat / 2 ^ 44) / 2 ^ 42 * 5 := by
    have hshift : ((h.x₂ + (h.x₁ >>> 44)) >>> 42).toNat =
        (h.x₂.toNat + h.x₁.toNat / 2 ^ 44) / 2 ^ 42 := by rw [toNat_shiftRight, htop]
    rw [← hshift]
    exact toNat_mul_small _ 5 (by omega)
  have hlow : (h.x₀ + ((h.x₂ + (h.x₁ >>> 44)) >>> 42) * 5).toNat =
      h.x₀.toNat + (h.x₂.toNat + h.x₁.toNat / 2 ^ 44) / 2 ^ 42 * 5 := by
    rw [← hc]
    apply toNat_add
    rw [hc]
    omega
  refine ⟨?_, ?_, ?_⟩
  · rw [← hlow]
    exact toNat_and_mask44 _
  · have hsmall : (h.x₁ &&& mask44).toNat < 2 ^ 63 := by
      rw [toNat_and_mask44]
      omega
    rw [← hlow, ← toNat_and_mask44]
    exact toNat_add_carry hsmall _
  · rw [← htop]
    exact toNat_and_mask42 _

/-- A pass of carries keeps the value modulo `p`. If its last carry fills the
middle limb, the top limb has just been emptied. -/
theorem carry_spec {h : Limbs} (h₀ : h.x₀.toNat < 2 ^ 44) (h₁ : h.x₁.toNat < 2 ^ 45)
    (h₂ : h.x₂.toNat < 2 ^ 42) :
    h.carry.x₀.toNat < 2 ^ 44 ∧ h.carry.x₁.toNat ≤ 2 ^ 44 ∧ h.carry.x₂.toNat < 2 ^ 42 ∧
      (h.carry.x₁.toNat = 2 ^ 44 → h.carry.x₂.toNat = 0) ∧
      h.carry.value ≡ h.value [MOD modulus] := by
  obtain ⟨c₀, c₁, c₂⟩ := toNat_carry h₀ h₁ h₂
  have hempty : h.carry.x₁.toNat = 2 ^ 44 → h.carry.x₂.toNat = 0 := by
    intro hfull
    rcases (show (h.x₂.toNat + h.x₁.toNat / 2 ^ 44) / 2 ^ 42 = 0 ∨
      (h.x₂.toNat + h.x₁.toNat / 2 ^ 44) / 2 ^ 42 = 1 by omega) with hc | hc
    · rw [hc] at c₁
      omega
    · omega
  refine ⟨by omega, by omega, by omega, hempty, ?_⟩
  have hvalue : h.carry.value + modulus * ((h.x₂.toNat + h.x₁.toNat / 2 ^ 44) / 2 ^ 42) =
      h.value := by
    rw [value, value, c₀, c₁, c₂, modulus]
    omega
  rw [← hvalue]
  exact (Nat.add_mul_mod_self_left _ _ _).symm

/-- Two passes leave canonical limbs: nothing is carried out of the second. -/
theorem carry_carry_spec {h : Limbs} (h₀ : h.x₀.toNat < 2 ^ 44) (h₁ : h.x₁.toNat < 2 ^ 45)
    (h₂ : h.x₂.toNat < 2 ^ 42) :
    h.carry.carry.Canonical ∧ h.carry.carry.value ≡ h.value [MOD modulus] := by
  obtain ⟨c₀, c₁, c₂, hempty, hvalue⟩ := carry_spec h₀ h₁ h₂
  have hlt : h.carry.x₁.toNat < 2 ^ 45 := by omega
  obtain ⟨e₀, e₁, e₂⟩ := toNat_carry c₀ hlt c₂
  have hnone : (h.carry.x₂.toNat + h.carry.x₁.toNat / 2 ^ 44) / 2 ^ 42 = 0 := by
    rcases Nat.lt_or_ge h.carry.x₁.toNat (2 ^ 44) with hx | hx
    · omega
    · have := hempty (by omega)
      omega
  rw [hnone] at e₀ e₁
  refine ⟨⟨by omega, by omega, by omega⟩, (carry_spec c₀ hlt c₂).2.2.2.2.trans hvalue⟩

/-- `h + 5`, with what exceeds 130 bits still in the last limb. -/
def plusFive (h : Limbs) : Limbs :=
  let g₀ := h.x₀ + 5
  let g₁ := h.x₁ + (g₀ >>> 44)
  ⟨g₀ &&& mask44, g₁ &&& mask44, h.x₂ + (g₁ >>> 44)⟩

/-- Subtract `2 ^ 130`, with a borrow in the top bit of the last limb if there is less. -/
def minusTop (g : Limbs) : Limbs := { g with x₂ := g.x₂ - (1 <<< 42) }

theorem minusModulus_eq (h : Limbs) : h.minusModulus = h.plusFive.minusTop := rfl

theorem toNat_plusFive {h : Limbs} (hc : h.Canonical) :
    h.plusFive.x₀.toNat = (h.x₀.toNat + 5) % 2 ^ 44 ∧
      h.plusFive.x₁.toNat = (h.x₁.toNat + (h.x₀.toNat + 5) / 2 ^ 44) % 2 ^ 44 ∧
      h.plusFive.x₂.toNat =
        h.x₂.toNat + (h.x₁.toNat + (h.x₀.toNat + 5) / 2 ^ 44) / 2 ^ 44 := by
  obtain ⟨h₀, h₁, h₂⟩ := hc
  have hg₀ : (h.x₀ + 5).toNat = h.x₀.toNat + 5 := toNat_add (by change _ + 5 < _; omega)
  have hg₁ : (h.x₁ + ((h.x₀ + 5) >>> 44)).toNat = h.x₁.toNat + (h.x₀.toNat + 5) / 2 ^ 44 := by
    rw [← hg₀]
    exact toNat_add_carry (by omega) _
  refine ⟨?_, ?_, ?_⟩
  · rw [← hg₀]
    exact toNat_and_mask44 _
  · rw [← hg₁]
    exact toNat_and_mask44 _
  · rw [← hg₁]
    exact toNat_add_carry (by omega) _

theorem value_plusFive {h : Limbs} (hc : h.Canonical) : h.plusFive.value = h.value + 5 := by
  obtain ⟨g₀, g₁, g₂⟩ := toNat_plusFive hc
  rw [value, value, g₀, g₁, g₂]
  omega

/-- `h + 5` reaches `2 ^ 130` exactly if `h` reaches the modulus. -/
theorem toNat_plusFive_lt_iff {h : Limbs} (hc : h.Canonical) :
    h.plusFive.x₂.toNat < 2 ^ 42 ↔ h.value < modulus := by
  obtain ⟨g₀, g₁, -⟩ := toNat_plusFive hc
  have hvalue := value_plusFive hc
  unfold value at hvalue
  unfold value modulus
  omega

theorem toNat_minusTop {g : Limbs} :
    g.minusTop.x₂.toNat = (2 ^ 64 - 2 ^ 42 + g.x₂.toNat) % 2 ^ 64 := BitVec.toNat_sub _ _

/-- The subtraction of the modulus borrows exactly if the number is below it. -/
theorem minusModulus_spec {h : Limbs} (hc : h.Canonical) :
    (h.value < modulus → h.minusModulus.noBorrow = 0#64) ∧
      (modulus ≤ h.value → h.minusModulus.noBorrow = BitVec.allOnes 64 ∧
        h.minusModulus.Canonical ∧ h.minusModulus.value = h.value - modulus) := by
  obtain ⟨g₀, g₁, g₂⟩ := toNat_plusFive hc
  obtain ⟨h₀, h₁, h₂⟩ := hc
  have hlt := toNat_plusFive_lt_iff ⟨h₀, h₁, h₂⟩
  have hvalue := value_plusFive ⟨h₀, h₁, h₂⟩
  have htop := toNat_minusTop (g := h.plusFive)
  have hborrow : h.minusModulus.noBorrow.toNat =
      (2 ^ 64 - 1 + h.plusFive.minusTop.x₂.toNat / 2 ^ 63) % 2 ^ 64 := by
    rw [← toNat_shiftRight]
    exact BitVec.toNat_sub _ _
  constructor
  · intro hbelow
    have := hlt.2 hbelow
    apply BitVec.eq_of_toNat_eq
    rw [hborrow, BitVec.toNat_ofNat]
    omega
  · intro hge
    have hle : ¬ h.plusFive.x₂.toNat < 2 ^ 42 := fun hx => Nat.not_le.2 (hlt.1 hx) hge
    rw [minusModulus_eq]
    refine ⟨?_, ⟨?_, ?_, ?_⟩, ?_⟩
    · apply BitVec.eq_of_toNat_eq
      rw [← minusModulus_eq, hborrow, BitVec.toNat_allOnes]
      omega
    · change h.plusFive.x₀.toNat < _
      omega
    · change h.plusFive.x₁.toNat < _
      omega
    · omega
    · have hsub : h.plusFive.minusTop.value + 2 ^ 130 = h.plusFive.value := by
        change h.plusFive.x₀.toNat + _ * h.plusFive.x₁.toNat + _ + _ = _
        unfold value
        omega
      unfold modulus
      omega

theorem select_zero (a b : Limbs) : select 0#64 a b = b := by
  unfold select
  rw [BitVec.not_zero]
  simp only [BitVec.and_allOnes, BitVec.and_zero, BitVec.or_zero]

theorem select_allOnes (a b : Limbs) : select (BitVec.allOnes 64) a b = a := by
  unfold select
  rw [BitVec.not_allOnes]
  simp only [BitVec.and_allOnes, BitVec.and_zero, BitVec.zero_or]

/-- **The reduction gives the least residue.** -/
theorem reduce_spec {h : Limbs} (h₀ : h.x₀.toNat < 2 ^ 44) (h₁ : h.x₁.toNat < 2 ^ 45)
    (h₂ : h.x₂.toNat < 2 ^ 42) : h.reduce.Canonical ∧ h.reduce.value = h.value % modulus := by
  obtain ⟨hc, hvalue⟩ := carry_carry_spec h₀ h₁ h₂
  obtain ⟨hbelow, habove⟩ := minusModulus_spec hc
  have hlt := hc.value_lt
  unfold reduce
  dsimp only
  rw [← hvalue]
  rcases Nat.lt_or_ge h.carry.carry.value modulus with hp | hp
  · rw [hbelow hp, select_zero, Nat.mod_eq_of_lt hp]
    exact ⟨hc, rfl⟩
  · obtain ⟨hmask, hcanonical, hsub⟩ := habove hp
    rw [hmask, select_allOnes]
    refine ⟨hcanonical, ?_⟩
    rw [hsub, Nat.mod_eq_sub_mod hp, Nat.mod_eq_of_lt]
    unfold modulus at hp ⊢
    omega

theorem addCarry_spec {a b : Limbs} (ha : a.Canonical) (hb : b.Canonical) :
    (a.addCarry b).Canonical ∧ (a.addCarry b).value = (a.value + b.value) % 2 ^ 130 := by
  obtain ⟨a₀, a₁, a₂⟩ := ha
  obtain ⟨b₀, b₁, b₂⟩ := hb
  have h₀ : (a.x₀ + b.x₀).toNat = a.x₀.toNat + b.x₀.toNat := toNat_add (by omega)
  have hb₁ : (b.x₁ + ((a.x₀ + b.x₀) >>> 44)).toNat =
      b.x₁.toNat + (a.x₀.toNat + b.x₀.toNat) / 2 ^ 44 := by
    rw [← h₀]
    exact toNat_add_carry (by omega) _
  have h₁ : (a.x₁ + (b.x₁ + ((a.x₀ + b.x₀) >>> 44))).toNat =
      a.x₁.toNat + (b.x₁.toNat + (a.x₀.toNat + b.x₀.toNat) / 2 ^ 44) := by
    rw [← hb₁]
    exact toNat_add (by omega)
  have hb₂ : (b.x₂ + ((a.x₁ + (b.x₁ + ((a.x₀ + b.x₀) >>> 44))) >>> 44)).toNat =
      b.x₂.toNat +
        (a.x₁.toNat + (b.x₁.toNat + (a.x₀.toNat + b.x₀.toNat) / 2 ^ 44)) / 2 ^ 44 := by
    rw [← h₁]
    exact toNat_add_carry (by omega) _
  have h₂ := toNat_add (show a.x₂.toNat +
    (b.x₂ + ((a.x₁ + (b.x₁ + ((a.x₀ + b.x₀) >>> 44))) >>> 44)).toNat < 2 ^ 64 by omega)
  have hx₀ : (a.addCarry b).x₀.toNat = (a.x₀.toNat + b.x₀.toNat) % 2 ^ 44 := by
    rw [← h₀]
    exact toNat_and_mask44 _
  have hx₁ : (a.addCarry b).x₁.toNat =
      (a.x₁.toNat + (b.x₁.toNat + (a.x₀.toNat + b.x₀.toNat) / 2 ^ 44)) % 2 ^ 44 := by
    rw [← h₁]
    exact toNat_and_mask44 _
  have hx₂ : (a.addCarry b).x₂.toNat = (a.x₂.toNat + (b.x₂.toNat +
      (a.x₁.toNat + (b.x₁.toNat + (a.x₀.toNat + b.x₀.toNat) / 2 ^ 44)) / 2 ^ 44)) % 2 ^ 42 := by
    rw [← hb₂, ← h₂]
    exact toNat_and_mask42 _
  refine ⟨⟨by omega, by omega, by omega⟩, ?_⟩
  rw [value, value, value, hx₀, hx₁, hx₂]
  omega

end Limbs

end StreamDigest.Poly1305
