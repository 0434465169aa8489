import StreamDigest.Proofs.Poly1305.Tag

/-!
# No overflow

The arithmetic of Poly1305 once more, in a form that fails where a sum or a
product exceeds its width or a shifted number exceeds a word. What wraps or
drops bits on purpose stays as it is: the subtraction of the modulus, and the
low word under a mask that is narrower. Within the bounds of an accumulator and
a multiplier (`Core.InBounds`) no operation fails, and each one keeps them.
-/

namespace StreamDigest.Poly1305

/-! ## Checked words -/

section
variable {w : Nat}

/-- The sum, if it fits. -/
def checkedAdd (x y : BitVec w) : Option (BitVec w) :=
  if x.uaddOverflow y then none else some (x + y)

/-- The product, if it fits. -/
def checkedMul (x y : BitVec w) : Option (BitVec w) :=
  if x.umulOverflow y then none else some (x * y)

/-- The shifted number, if it fits a word. -/
def checkedShr (d : Wide) (n : Nat) : Option Word :=
  if (d >>> n).toNat < 2 ^ 64 then some (shr d n) else none

theorem checkedAdd_eq {x y : BitVec w} (h : x.toNat + y.toNat < 2 ^ w) :
    checkedAdd x y = some (x + y) := by
  rw [checkedAdd, if_neg]
  simpa [BitVec.uaddOverflow] using h

theorem checkedMul_eq {x y : BitVec w} (h : x.toNat * y.toNat < 2 ^ w) :
    checkedMul x y = some (x * y) := by
  rw [checkedMul, if_neg]
  simpa [BitVec.umulOverflow] using h

theorem checkedShr_eq {d : Wide} {n : Nat} (h : d.toNat / 2 ^ n < 2 ^ 64) :
    checkedShr d n = some (shr d n) := by
  rw [checkedShr, if_pos]
  rwa [BitVec.toNat_ushiftRight, Nat.shiftRight_eq_div_pow]

/-- A carry fits where there is room for its 20 bits. -/
theorem checkedAdd_carry {x : Word} (h : x.toNat < 2 ^ 63) (y : Word) :
    checkedAdd x (y >>> 44) = some (x + (y >>> 44)) := by
  have hy := y.isLt
  apply checkedAdd_eq
  rw [toNat_shiftRight]
  omega

theorem checkedMul_ofNat {x : Word} (n : Nat) (h : x.toNat * n < 2 ^ 64) :
    checkedMul x (BitVec.ofNat 64 n) = some (x * BitVec.ofNat 64 n) :=
  checkedMul_eq ((Nat.mul_le_mul_left _ (Nat.mod_le n _)).trans_lt h)

end

/-! ## Checked products -/

/-- The full product of two words. -/
def checkedProduct (x y : Word) : Option Wide := checkedMul (x.setWidth 128) (y.setWidth 128)

/-- The sum of three products. -/
def checkedProducts (a x b y c z : Word) : Option Wide := do
  checkedAdd (← checkedAdd (← checkedProduct a x) (← checkedProduct b y)) (← checkedProduct c z)

theorem checkedProduct_eq (x y : Word) : checkedProduct x y = some (mul x y) := by
  apply checkedMul_eq
  rw [toNat_widen, toNat_widen]
  exact (Nat.mul_lt_mul'' x.isLt y.isLt).trans_eq (by norm_num)

theorem checkedProducts_eq {a b c x y z : Word}
    (h : a.toNat * x.toNat + b.toNat * y.toNat + c.toNat * z.toNat < 2 ^ 128) :
    checkedProducts a x b y c z = some (mul a x + mul b y + mul c z) := by
  have hab : (mul a x).toNat + (mul b y).toNat < 2 ^ 128 := by
    rw [toNat_mul, toNat_mul]
    omega
  have habc : (mul a x + mul b y).toNat + (mul c z).toNat < 2 ^ 128 := by
    rw [toNat_add_wide hab, toNat_mul, toNat_mul, toNat_mul]
    exact h
  simp only [checkedProducts, checkedProduct_eq, checkedAdd_eq hab, checkedAdd_eq habc,
    Option.bind_eq_bind, Option.bind_some]

namespace Sums

def carryUpChecked (d : Sums) : Option Sums := do
  let d₁ ← checkedAdd d.d₁ ((← checkedShr d.d₀ 44).setWidth 128)
  return ⟨d.d₀, d₁, ← checkedAdd d.d₂ ((← checkedShr d₁ 44).setWidth 128)⟩

def foldChecked (d : Sums) : Option Limbs := do
  let h₀ ← checkedAdd (lo d.d₀ &&& mask44) (← checkedMul (← checkedShr d.d₂ 42) 5)
  return ⟨h₀ &&& mask44, ← checkedAdd (lo d.d₁ &&& mask44) (h₀ >>> 44), lo d.d₂ &&& mask42⟩

theorem carryUpChecked_eq {d : Sums} (h₀ : d.d₀.toNat < 2 ^ 92) (h₁ : d.d₁.toNat < 2 ^ 91)
    (h₂ : d.d₂.toNat < 41 * 2 ^ 84) : d.carryUpChecked = some d.carryUp := by
  obtain ⟨-, c₁, c₂⟩ := toNat_carryUp h₀ h₁ h₂
  have hs₀ : checkedShr d.d₀ 44 = some (shr d.d₀ 44) := checkedShr_eq (by omega)
  have hd₁ : checkedAdd d.d₁ ((shr d.d₀ 44).setWidth 128) = some d.carryUp.d₁ := by
    apply checkedAdd_eq
    rw [toNat_widen, toNat_shr (by omega)]
    omega
  have hs₁ : checkedShr d.carryUp.d₁ 44 = some (shr d.carryUp.d₁ 44) := checkedShr_eq (by omega)
  have hd₂ : checkedAdd d.d₂ ((shr d.carryUp.d₁ 44).setWidth 128) = some d.carryUp.d₂ := by
    apply checkedAdd_eq
    rw [toNat_widen, toNat_shr (by omega)]
    omega
  simp only [carryUpChecked, hs₀, hd₁, hs₁, hd₂, Option.bind_eq_bind, Option.bind_some]
  rfl

theorem foldChecked_eq {d : Sums} (h : d.d₂.toNat < 2 ^ 100) : d.foldChecked = some d.fold := by
  have hs : checkedShr d.d₂ 42 = some (shr d.d₂ 42) := checkedShr_eq (by omega)
  have hshr : (shr d.d₂ 42).toNat = d.d₂.toNat / 2 ^ 42 := toNat_shr (by omega)
  have hc : (shr d.d₂ 42 * 5).toNat = (shr d.d₂ 42).toNat * 5 := toNat_mul_small _ 5 (by omega)
  have hm : checkedMul (shr d.d₂ 42) 5 = some (shr d.d₂ 42 * 5) := checkedMul_ofNat 5 (by omega)
  have h₀ : checkedAdd (lo d.d₀ &&& mask44) (shr d.d₂ 42 * 5) =
      some ((lo d.d₀ &&& mask44) + shr d.d₂ 42 * 5) := by
    apply checkedAdd_eq
    rw [toNat_lo_and_mask44]
    omega
  have hsmall : (lo d.d₁ &&& mask44).toNat < 2 ^ 63 := by
    rw [toNat_lo_and_mask44]
    omega
  simp only [foldChecked, hs, hm, h₀, checkedAdd_carry hsmall, Option.bind_eq_bind,
    Option.bind_some]
  rfl

end Sums

/-! ## Checked limbs -/

namespace Limbs

def addChecked (a b : Limbs) : Option Limbs := do
  return ⟨← checkedAdd a.x₀ b.x₀, ← checkedAdd a.x₁ b.x₁, ← checkedAdd a.x₂ b.x₂⟩

def productChecked (h r : Limbs) : Option Sums := do
  let s₁ ← checkedMul r.x₁ 20
  let s₂ ← checkedMul r.x₂ 20
  return ⟨← checkedProducts h.x₀ r.x₀ h.x₁ s₂ h.x₂ s₁,
    ← checkedProducts h.x₀ r.x₁ h.x₁ r.x₀ h.x₂ s₂,
    ← checkedProducts h.x₀ r.x₂ h.x₁ r.x₁ h.x₂ r.x₀⟩

def mulModChecked (h r : Limbs) : Option Limbs := do
  (← (← productChecked h r).carryUpChecked).foldChecked

def carryChecked (h : Limbs) : Option Limbs := do
  let h₂ ← checkedAdd h.x₂ (h.x₁ >>> 44)
  let h₀ ← checkedAdd h.x₀ (← checkedMul (h₂ >>> 42) 5)
  return ⟨h₀ &&& mask44, ← checkedAdd (h.x₁ &&& mask44) (h₀ >>> 44), h₂ &&& mask42⟩

def plusFiveChecked (h : Limbs) : Option Limbs := do
  let g₀ ← checkedAdd h.x₀ 5
  let g₁ ← checkedAdd h.x₁ (g₀ >>> 44)
  return ⟨g₀ &&& mask44, g₁ &&& mask44, ← checkedAdd h.x₂ (g₁ >>> 44)⟩

def reduceChecked (h : Limbs) : Option Limbs := do
  let h ← (← h.carryChecked).carryChecked
  let g := (← h.plusFiveChecked).minusTop
  return select g.noBorrow g h

def addCarryChecked (a b : Limbs) : Option Limbs := do
  let h₀ ← checkedAdd a.x₀ b.x₀
  let h₁ ← checkedAdd a.x₁ (← checkedAdd b.x₁ (h₀ >>> 44))
  let h₂ ← checkedAdd a.x₂ (← checkedAdd b.x₂ (h₁ >>> 44))
  return ⟨h₀ &&& mask44, h₁ &&& mask44, h₂ &&& mask42⟩

theorem addChecked_eq {h m : Limbs} (hh : h.Partial) (hm : m.Block) :
    h.addChecked m = some (h.add m) := by
  obtain ⟨h₀, h₁, h₂⟩ := hh
  obtain ⟨m₀, m₁, m₂⟩ := hm
  rw [addChecked, checkedAdd_eq (by omega), checkedAdd_eq (by omega), checkedAdd_eq (by omega)]
  rfl

/-- The multiples that a product is made with fit. -/
theorem Narrow.checkedMul_eq {r : Limbs} (hr : r.Narrow) :
    checkedMul r.x₁ 20 = some (r.x₁ * 20) ∧ checkedMul r.x₂ 20 = some (r.x₂ * 20) := by
  obtain ⟨-, r₁, r₂⟩ := hr
  exact ⟨checkedMul_ofNat 20 (by omega), checkedMul_ofNat 20 (by omega)⟩

theorem productChecked_eq {h r : Limbs} (hh : h.Loaded) (hr : r.Narrow) :
    h.productChecked r = some (h.product r) := by
  obtain ⟨⟨p₀, p₁, p₂⟩, b₀, b₁, b₂⟩ := toNat_product hh hr
  obtain ⟨hm₁, hm₂⟩ := hr.checkedMul_eq
  obtain ⟨-, r₁, r₂⟩ := hr
  have hs₁ : (r.x₁ * 20).toNat = r.x₁.toNat * 20 := toNat_mul_small r.x₁ 20 (by omega)
  have hs₂ : (r.x₂ * 20).toNat = r.x₂.toNat * 20 := toNat_mul_small r.x₂ 20 (by omega)
  have hd₀ : checkedProducts h.x₀ r.x₀ h.x₁ (r.x₂ * 20) h.x₂ (r.x₁ * 20) =
      some (product h r).d₀ := by
    apply checkedProducts_eq
    rw [hs₁, hs₂]
    omega
  have hd₁ : checkedProducts h.x₀ r.x₁ h.x₁ r.x₀ h.x₂ (r.x₂ * 20) = some (product h r).d₁ := by
    apply checkedProducts_eq
    rw [hs₂]
    omega
  have hd₂ : checkedProducts h.x₀ r.x₂ h.x₁ r.x₁ h.x₂ r.x₀ = some (product h r).d₂ := by
    apply checkedProducts_eq
    omega
  simp only [productChecked, hm₁, hm₂, hd₀, hd₁, hd₂, Option.bind_eq_bind, Option.bind_some]
  rfl

theorem mulModChecked_eq {h r : Limbs} (hh : h.Loaded) (hr : r.Narrow) :
    h.mulModChecked r = some (h.mulMod r) := by
  obtain ⟨-, b₀, b₁, b₂⟩ := toNat_product hh hr
  obtain ⟨-, -, c₂⟩ := Sums.toNat_carryUp b₀ b₁ b₂
  have hfold : (product h r).carryUp.foldChecked = some (h.mulMod r) :=
    Sums.foldChecked_eq (by omega)
  simp only [mulModChecked, productChecked_eq hh hr, Sums.carryUpChecked_eq b₀ b₁ b₂, hfold,
    Option.bind_eq_bind, Option.bind_some]

theorem carryChecked_eq {h : Limbs} (h₀ : h.x₀.toNat < 2 ^ 44) (h₂ : h.x₂.toNat < 2 ^ 42) :
    h.carryChecked = some h.carry := by
  have hsmall : (h.x₁ &&& mask44).toNat < 2 ^ 63 := by
    rw [toNat_and_mask44]
    omega
  have hc : ((h.x₂ + (h.x₁ >>> 44)) >>> 42).toNat < 2 ^ 22 := by
    have := (h.x₂ + (h.x₁ >>> 44)).isLt
    rw [toNat_shiftRight]
    omega
  have hm : checkedMul ((h.x₂ + (h.x₁ >>> 44)) >>> 42) 5 =
      some ((h.x₂ + (h.x₁ >>> 44)) >>> 42 * 5) := checkedMul_ofNat 5 (by omega)
  have hfive : ((h.x₂ + (h.x₁ >>> 44)) >>> 42 * 5).toNat =
      ((h.x₂ + (h.x₁ >>> 44)) >>> 42).toNat * 5 := toNat_mul_small _ 5 (by omega)
  have hx₀ : checkedAdd h.x₀ ((h.x₂ + (h.x₁ >>> 44)) >>> 42 * 5) =
      some (h.x₀ + (h.x₂ + (h.x₁ >>> 44)) >>> 42 * 5) := checkedAdd_eq (by omega)
  simp only [carryChecked, checkedAdd_carry (show h.x₂.toNat < 2 ^ 63 by omega), hm, hx₀,
    checkedAdd_carry hsmall, Option.bind_eq_bind, Option.bind_some]
  rfl

theorem plusFiveChecked_eq {h : Limbs} (hc : h.Canonical) :
    h.plusFiveChecked = some h.plusFive := by
  obtain ⟨h₀, h₁, h₂⟩ := hc
  have hx₀ : checkedAdd h.x₀ 5 = some (h.x₀ + 5) := by
    apply checkedAdd_eq
    change _ + 5 < _
    omega
  simp only [plusFiveChecked, hx₀, checkedAdd_carry (show h.x₁.toNat < 2 ^ 63 by omega),
    checkedAdd_carry (show h.x₂.toNat < 2 ^ 63 by omega), Option.bind_eq_bind, Option.bind_some]
  rfl

theorem reduceChecked_eq {h : Limbs} (h₀ : h.x₀.toNat < 2 ^ 44) (h₁ : h.x₁.toNat < 2 ^ 45)
    (h₂ : h.x₂.toNat < 2 ^ 42) : h.reduceChecked = some h.reduce := by
  obtain ⟨c₀, c₁, c₂, -⟩ := carry_spec h₀ h₁ h₂
  simp only [reduceChecked, carryChecked_eq h₀ h₂, carryChecked_eq c₀ c₂,
    plusFiveChecked_eq (carry_carry_spec h₀ h₁ h₂).1, Option.bind_eq_bind, Option.bind_some]
  rfl

theorem addCarryChecked_eq {a b : Limbs} (ha : a.Canonical) (hb : b.Canonical) :
    a.addCarryChecked b = some (a.addCarry b) := by
  obtain ⟨a₀, a₁, a₂⟩ := ha
  obtain ⟨b₀, b₁, b₂⟩ := hb
  have hx₀ : checkedAdd a.x₀ b.x₀ = some (a.x₀ + b.x₀) := checkedAdd_eq (by omega)
  -- a limb of `b` and a carry leave room for a limb of `a`
  have hsum : ∀ x y z : Word, x.toNat < 2 ^ 44 → y.toNat < 2 ^ 44 →
      checkedAdd x (y + (z >>> 44)) = some (x + (y + (z >>> 44))) := by
    intro x y z hx hy
    have hz := z.isLt
    apply checkedAdd_eq
    rw [toNat_add_carry (by omega)]
    omega
  simp only [addCarryChecked, hx₀, checkedAdd_carry (show b.x₁.toNat < 2 ^ 63 by omega),
    hsum a.x₁ b.x₁ _ a₁ b₁, checkedAdd_carry (show b.x₂.toNat < 2 ^ 63 by omega),
    hsum a.x₂ b.x₂ _ (by omega) (by omega), Option.bind_eq_bind, Option.bind_some]
  rfl

/-- The subtraction of `2 ^ 130` goes below zero exactly if the number is below the modulus. -/
theorem usubOverflow_plusFive {h : Limbs} (hc : h.Canonical) :
    h.plusFive.x₂.usubOverflow (1 <<< 42) = true ↔ h.value < modulus := by
  rw [← toNat_plusFive_lt_iff hc]
  exact decide_eq_true_iff

theorem noBorrow_eq_zero_iff {h : Limbs} (hc : h.Canonical) :
    h.minusModulus.noBorrow = 0 ↔ h.value < modulus := by
  obtain ⟨hbelow, habove⟩ := minusModulus_spec hc
  refine ⟨fun hzero => ?_, hbelow⟩
  by_contra hge
  rw [(habove (Nat.not_lt.1 hge)).1] at hzero
  cases hzero

end Limbs

/-! ## Checked cores -/

namespace Core

def stepChecked (topBit : Bool) (c : Core) (block : Bytes) : Option Core := do
  let h ← c.h.addChecked (blockLimbs topBit block)
  return { c with h := ← h.mulModChecked c.r }

def interiorChecked (c : Core) (blocks : Bytes) : Option Core :=
  (Bytes.blocks blockLen blocks).foldlM (stepChecked true) c

def finalChecked (c : Core) (last : Bytes) : Option Core :=
  if last.length = blockLen then stepChecked true c last
  else if last = [] then some c
  else stepChecked false c (Bytes.padTo blockLen (last ++ [1]))

def tagChecked (c : Core) : Option Bytes := do
  let (t₀, t₁) := (← (← c.h.reduceChecked).addCarryChecked (.ofWords c.pad.1 c.pad.2)).toWords
  return Bytes.toLE 8 t₀.toNat ++ Bytes.toLE 8 t₁.toNat

/-- What is done to a core after it was made from its key. -/
inductive Operation where
  | call (call : Call)
  /-- Wipe every field. -/
  | wipe

/-- The core after an operation. -/
def perform (c : Core) : Operation → Core
  | .call call => backend.apply c call
  | .wipe => backend.wiped

def performChecked (c : Core) : Operation → Option Core
  | .call (.interior _ blocks) => c.interiorChecked blocks
  | .call (.final _ last) => c.finalChecked last
  | .call (.extract _) => c.tagChecked.map fun _ => c
  | .wipe => some wiped

/-- The bounds of a core between operations. -/
structure InBounds (c : Core) : Prop where
  multiplier : c.r.Narrow
  accumulator : c.h.Partial

variable {c : Core}

theorem inBounds_ofKey (key : Key) : (ofKey key).InBounds :=
  ⟨(clamp_spec _ _).1, Limbs.partial_zero⟩

theorem inBounds_wiped : wiped.InBounds :=
  ⟨⟨by decide, by decide, by decide⟩, Limbs.partial_zero⟩

theorem tagChecked_eq (h₀ : c.h.x₀.toNat < 2 ^ 44) (h₁ : c.h.x₁.toNat < 2 ^ 45)
    (h₂ : c.h.x₂.toNat < 2 ^ 42) : c.tagChecked = some c.tag := by
  have hsum := Limbs.addCarryChecked_eq (Limbs.reduce_spec h₀ h₁ h₂).1
    (Limbs.narrow_ofWords c.pad.1 c.pad.2).canonical
  simp only [tagChecked, Limbs.reduceChecked_eq h₀ h₁ h₂, hsum, Option.bind_eq_bind,
    Option.bind_some]
  rfl

/-- A step that neither fails nor leaves the bounds is repeated without doing so. -/
theorem foldlM_eq_some {α β : Type} {P : α → Prop} {f : α → β → Option α} {g : α → β → α}
    (hstep : ∀ a b, P a → P (g a b) ∧ f a b = some (g a b)) (xs : List β) {a : α} (ha : P a) :
    P (xs.foldl g a) ∧ xs.foldlM f a = some (xs.foldl g a) := by
  induction xs generalizing a with
  | nil => exact ⟨ha, rfl⟩
  | cons x xs ih =>
    obtain ⟨hg, hf⟩ := hstep a x ha
    rw [List.foldl_cons, List.foldlM_cons, hf]
    exact ih hg

namespace InBounds

theorem step (h : c.InBounds) (topBit : Bool) (block : Bytes) :
    (c.step topBit block).InBounds ∧
      c.stepChecked topBit block = some (c.step topBit block) := by
  have hblock := block_blockLimbs topBit block
  obtain ⟨hloaded, -⟩ := Limbs.add_spec h.accumulator hblock
  refine ⟨⟨h.multiplier, (Limbs.mulMod_spec hloaded h.multiplier).1⟩, ?_⟩
  simp only [stepChecked, Limbs.addChecked_eq h.accumulator hblock,
    Limbs.mulModChecked_eq hloaded h.multiplier, Option.bind_eq_bind, Option.bind_some]
  rfl

theorem interior (h : c.InBounds) (prior : Nat) (blocks : Bytes) :
    (c.interior prior blocks).InBounds ∧
      c.interiorChecked blocks = some (c.interior prior blocks) :=
  foldlM_eq_some (fun _ block h => h.step true block) _ h

theorem final (h : c.InBounds) (prior : Nat) (last : Bytes) :
    (c.final prior last).InBounds ∧ c.finalChecked last = some (c.final prior last) := by
  unfold Core.final finalChecked
  split_ifs
  · exact h.step true last
  · exact ⟨h, rfl⟩
  · exact h.step false _

theorem canonical (h : c.InBounds) : c.h.carry.carry.Canonical := by
  obtain ⟨h₀, h₁, h₂⟩ := h.accumulator
  exact (Limbs.carry_carry_spec h₀ (by omega) h₂).1

theorem tag (h : c.InBounds) : c.tagChecked = some c.tag := by
  obtain ⟨h₀, h₁, h₂⟩ := h.accumulator
  exact tagChecked_eq h₀ (by omega) h₂

theorem perform (h : c.InBounds) (operation : Operation) :
    (c.perform operation).InBounds ∧
      c.performChecked operation = some (c.perform operation) := by
  cases operation with
  | call call =>
    cases call with
    | interior prior blocks => exact h.interior prior blocks
    | final prior last => exact h.final prior last
    | extract len =>
      refine ⟨h, ?_⟩
      rw [performChecked, h.tag]
      rfl
  | wipe => exact ⟨inBounds_wiped, rfl⟩

end InBounds

/-- **No overflow.** Whatever is done to a core, it stays within the bounds and no operation
fails; within them no block and no tag makes one fail. A low word under its mask is the
remainder of the whole number. The subtraction from the carried accumulator goes below zero
exactly if that is less than the modulus, and the mask tells. -/
theorem checked_exact :
    (∀ (key : Key) (operations : List Operation),
      (operations.foldl perform (ofKey key)).InBounds ∧
        operations.foldlM performChecked (ofKey key) =
          some (operations.foldl perform (ofKey key))) ∧
    ∀ c : Core, c.InBounds →
      (∀ topBit block, c.stepChecked topBit block = some (c.step topBit block)) ∧
      c.tagChecked = some c.tag ∧
      (∀ d : Wide, (lo d &&& mask44).toNat = d.toNat % 2 ^ 44 ∧
        (lo d &&& mask42).toNat = d.toNat % 2 ^ 42) ∧
      c.h.carry.carry.minusModulus.x₂ = c.h.carry.carry.plusFive.x₂ - (1 <<< 42) ∧
      (c.h.carry.carry.plusFive.x₂.usubOverflow (1 <<< 42) = true ↔
        c.h.carry.carry.value < 2 ^ 130 - 5) ∧
      (c.h.carry.carry.minusModulus.noBorrow = 0 ↔ c.h.carry.carry.value < 2 ^ 130 - 5) ∧
      (2 ^ 130 - 5 ≤ c.h.carry.carry.value →
        c.h.carry.carry.minusModulus.noBorrow = BitVec.allOnes 64) := by
  refine ⟨fun key operations => ?_, fun c hc => ?_⟩
  · exact foldlM_eq_some (fun _ operation h => h.perform operation) _ (inBounds_ofKey key)
  · exact ⟨fun topBit block => (hc.step topBit block).2, hc.tag,
      fun d => ⟨toNat_lo_and_mask44 d, toNat_lo_and_mask42 d⟩, rfl,
      Limbs.usubOverflow_plusFive hc.canonical, Limbs.noBorrow_eq_zero_iff hc.canonical,
      fun hge => ((Limbs.minusModulus_spec hc.canonical).2 hge).1⟩

/-- A core with its limbs at their bounds takes in a block of ones. -/
theorem checked_exact_at_bounds :
    ∃ c : Core, c.r = ⟨mask44, mask44, 2 ^ 40 - 1⟩ ∧ c.h = ⟨mask44, mask44 + 2 ^ 7, mask42⟩ ∧
      c.InBounds ∧
      c.stepChecked true (List.replicate 16 0xff) = some (c.step true (List.replicate 16 0xff)) ∧
      c.tagChecked = some c.tag ∧ c.h.carry.carry.minusModulus.noBorrow = 0 := by
  have hbounds : (⟨⟨mask44, mask44, 2 ^ 40 - 1⟩, ⟨mask44, mask44 + 2 ^ 7, mask42⟩, 0, 0⟩ :
      Core).InBounds :=
    ⟨⟨by decide, by decide, by decide⟩, ⟨by decide, by decide, by decide⟩⟩
  obtain ⟨hstep, htag, -, -, -, hmask, -⟩ := checked_exact.2 _ hbounds
  exact ⟨_, rfl, rfl, hbounds, hstep true _, htag, hmask.2 (by decide)⟩

end Core

end StreamDigest.Poly1305
