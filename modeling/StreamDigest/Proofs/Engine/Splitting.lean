import StreamDigest.Proofs.Blake2.Counter
import StreamDigest.Proofs.Engine.Chunking
import StreamDigest.Proofs.Poly1305.Overflow

/-!
# Interior blocks split anywhere

Around its loop over whole blocks a call sets something up and puts something back.
BLAKE2 takes in the pending key block and adds up the count that its blocks go on
from; Poly1305 forms two multiples of its multiplier and keeps the accumulator apart
from the core until the last block is in. `callChecked` is such a call written out,
with every sum, product and shift checked, and it is `interior` as long as no check
fails (`Blake2.Core.callChecked_eq`, `Poly1305.Core.InBounds.callChecked_eq`). So the set-up
may as well be done twice (`callChecked_append`): one call and two leave the same,
from any core, whether a message leads to it or not.
-/

namespace StreamDigest

/-! ## Loops that may fail -/

section
variable {α β σ τ : Type}

/-- What the steps of a loop are made of may be collected first, if it does not depend on
the state. -/
theorem foldlM_eq_map_mapM (f : α → Option β) (step : σ → β → σ) (xs : List α) (s : σ) :
    xs.foldlM (fun s x => do return step s (← f x)) s = (xs.mapM f).map (·.foldl step s) := by
  induction xs generalizing s with
  | nil => rfl
  | cons x xs ih =>
    rw [List.foldlM_cons, List.mapM_cons]
    cases f x with
    | none => rfl
    | some y =>
      refine (ih (step s y)).trans ?_
      cases xs.mapM f <;> rfl

/-- A loop that keeps a part of the state apart and puts it back at the end. -/
theorem foldlM_put (put : σ → τ) {f : σ → α → Option σ} {g : τ → α → Option τ}
    (hstep : ∀ s x, g (put s) x = (f s x).map put) (xs : List α) (s : σ) :
    xs.foldlM g (put s) = (xs.foldlM f s).map put := by
  induction xs generalizing s with
  | nil => rfl
  | cons x xs ih =>
    rw [List.foldlM_cons, List.foldlM_cons, hstep]
    cases f s x with
    | none => rfl
    | some s' => exact ih s'

end

/-! ## BLAKE2 -/

namespace Blake2.Core

variable {v : Variant}

/-- Compress the pending key block, if there is one, and forget it. -/
def takeKey (c : Core v) : Core v :=
  match c.pendingKey with
  | some key => { c with pendingKey := none }.step ⟨key, v.blockLen, false⟩
  | none => c

/-- The key block, then the whole blocks one by one, each with its own counter. -/
def callChecked (c : Core v) (prior : Nat) (blocks : Bytes) : Option (Core v) := do
  let c := c.takeKey
  let base ← within v.counterBits (c.counterOffset + prior)
  (Bytes.blocks v.blockLen blocks).zipIdx.foldlM
    (fun c numbered => do return c.step (← numberedChecked v base numbered)) c

theorem takeKey_eq (c : Core v) : c.takeKey = c.absorb (c.keyInput false) := by
  obtain ⟨work, chain, digestLen, keyed, pendingKey⟩ := c
  cases pendingKey with
  | none => rfl
  | some key => rfl

theorem absorb_of_none {c : Core v} (h : c.pendingKey = none) (xs : List Input) :
    c.absorb xs = xs.foldl step c := by
  have hc : { c with pendingKey := none } = c := by rw [← h]
  rw [absorb, ← foldl_step_pendingKey, hc]

/-- The call absorbs what it feeds to the compression function, the key block in front. -/
theorem callChecked_eq_map (c : Core v) (prior : Nat) (blocks : Bytes) :
    c.callChecked prior blocks = (c.interiorInputsChecked prior blocks).map c.absorb := by
  have hoffset : c.takeKey.counterOffset = c.counterOffset := by
    rw [takeKey_eq, absorb_counterOffset]
  -- behind the key block no key is pending
  have hloop : ∀ xs : List Input, xs.foldl step c.takeKey = c.absorb (c.keyInput false ++ xs) := by
    intro xs
    rw [takeKey_eq, ← absorb_absorb, absorb_of_none (absorb_pendingKey c _)]
  rw [callChecked, interiorInputsChecked_eq_bind, hoffset]
  cases within v.counterBits (c.counterOffset + prior) with
  | none => rfl
  | some base =>
    refine (foldlM_eq_map_mapM (numberedChecked v base) step _ c.takeKey).trans ?_
    simp only [hloop, Option.bind_eq_bind, Option.bind_some]
    cases (Bytes.blocks v.blockLen blocks).zipIdx.mapM (numberedChecked v base) <;> rfl

/-- Up to the longest message nothing exceeds its width. -/
theorem callChecked_eq (c : Core v) {prior : Nat} {blocks : Bytes}
    (h : prior + blocks.length ≤ v.maxInput) :
    c.callChecked prior blocks = some (c.interior prior blocks) := by
  obtain ⟨hsum, hend⟩ := c.fits_of_le h
  rw [callChecked_eq_map, interiorInputsChecked_eq c hsum (by omega)]
  rfl

section
variable (c : Core v) {prior : Nat} {a b : Bytes} (ha : v.blockLen ∣ a.length)
  (h : prior + a.length + b.length ≤ v.maxInput)

include ha h

theorem callChecked_append :
    (c.callChecked prior a >>= (·.callChecked (prior + a.length) b)) =
      some (c.interior prior (a ++ b)) := by
  rw [c.callChecked_eq ((Nat.le_add_right _ _).trans h), c.interior_append prior a b ha]
  exact callChecked_eq _ h

/-- One call and two feed the same. -/
theorem fedChecked_interior :
    c.fedChecked [.interior prior (a ++ b)] = some (c.interiorInputs prior (a ++ b)) ∧
      c.fedChecked [.interior prior a, .interior (prior + a.length) b] =
        some (c.interiorInputs prior (a ++ b)) := by
  have hone : ∀ call ∈ [Call.interior prior (a ++ b)], endOf call ≤ v.maxInput :=
    List.forall_mem_singleton.2 (by rwa [endOf, List.length_append, ← Nat.add_assoc])
  have htwo : ∀ call ∈ [Call.interior prior a, .interior (prior + a.length) b],
      endOf call ≤ v.maxInput :=
    List.forall_mem_cons.2 ⟨(Nat.le_add_right _ _).trans h, List.forall_mem_singleton.2 h⟩
  constructor
  · rw [c.fedChecked_eq fun call hmem => c.fits_of_le (hone call hmem)]
    exact congrArg some (List.append_nil _)
  · rw [c.fedChecked_eq fun call hmem => c.fits_of_le (htwo call hmem),
      c.interiorInputs_append prior a b ha (c.interiorInputs prior a)]
    exact congrArg (some <| c.interiorInputs prior a ++ ·) (List.append_nil _)

end

end Blake2.Core

/-! ## Poly1305 -/

namespace Poly1305.Core

/-- The multiples that the products with a multiplier are made with. -/
def multiplesChecked (r : Limbs) : Option (Word × Word) := do
  return (← checkedMul r.x₁ 20, ← checkedMul r.x₂ 20)

/-- Add a block to an accumulator and multiply, with the multiples at hand. -/
def accumulateChecked (r : Limbs) (s : Word × Word) (h : Limbs) (block : Bytes) :
    Option Limbs := do
  let h ← h.addChecked (blockLimbs true block)
  let d₀ ← checkedProducts h.x₀ r.x₀ h.x₁ s.2 h.x₂ s.1
  let d₁ ← checkedProducts h.x₀ r.x₁ h.x₁ r.x₀ h.x₂ s.2
  let d₂ ← checkedProducts h.x₀ r.x₂ h.x₁ r.x₁ h.x₂ r.x₀
  (← Sums.carryUpChecked ⟨d₀, d₁, d₂⟩).foldChecked

/-- Whole blocks onto the accumulator, which goes back into the core behind the last. The
multiples are formed once. -/
def callChecked (c : Core) (blocks : Bytes) : Option Core := do
  let s ← multiplesChecked c.r
  let h ← (Bytes.blocks blockLen blocks).foldlM (accumulateChecked c.r s) c.h
  return { c with h }

section
variable {c : Core} {s : Word × Word} (hs : multiplesChecked c.r = some s)

include hs

theorem callChecked_eq_map (blocks : Bytes) :
    c.callChecked blocks =
      ((Bytes.blocks blockLen blocks).foldlM (accumulateChecked c.r s) c.h).map
        fun h => { c with h } := by
  rw [callChecked, hs, Option.map_eq_bind]
  rfl

theorem stepChecked_eq_map (h : Limbs) (block : Bytes) :
    stepChecked true { c with h } block =
      (accumulateChecked c.r s h block).map fun h => { c with h } := by
  simp only [multiplesChecked, Option.bind_eq_bind, Option.bind_eq_some_iff, Option.pure_def,
    Option.some.injEq] at hs
  obtain ⟨s₁, hs₁, s₂, hs₂, rfl⟩ := hs
  unfold stepChecked accumulateChecked Limbs.mulModChecked Limbs.productChecked
  simp only [hs₁, hs₂, Option.bind_eq_bind, Option.bind_some, Option.bind_assoc, Option.pure_def,
    Option.map_eq_bind, Function.comp_def]

end

/-- No block changes the multiplier, so the multiples fit in all calls or in none. -/
theorem callChecked_append (c : Core) {a : Bytes} (ha : blockLen ∣ a.length) (b : Bytes) :
    (c.callChecked a >>= (·.callChecked b)) = c.callChecked (a ++ b) := by
  cases hs : multiplesChecked c.r with
  | none =>
    rw [callChecked, callChecked, hs]
    rfl
  | some s =>
    rw [callChecked_eq_map hs, callChecked_eq_map hs, Bytes.blocks_append (by decide) a b ha,
      List.foldlM_append]
    cases (Bytes.blocks blockLen a).foldlM (accumulateChecked c.r s) c.h with
    | none => rfl
    | some h => exact callChecked_eq_map (c := { c with h }) hs b

/-- Within the bounds nothing exceeds its width. -/
theorem InBounds.callChecked_eq {c : Core} (hc : c.InBounds) (prior : Nat) (blocks : Bytes) :
    c.callChecked blocks = some (c.interior prior blocks) := by
  have hs : multiplesChecked c.r = some (c.r.x₁ * 20, c.r.x₂ * 20) := by
    obtain ⟨hs₁, hs₂⟩ := hc.multiplier.checkedMul_eq
    rw [multiplesChecked, hs₁, hs₂]
    rfl
  rw [callChecked_eq_map hs, ← (hc.interior prior blocks).2]
  exact (foldlM_put (fun h => { c with h }) (stepChecked_eq_map hs) _ c.h).symm

end Poly1305.Core

/-- **Interior blocks split at any block boundary**, for every backend and from every core,
whether a message leads to it or not: two calls leave what one call leaves, in all fields. For
BLAKE2 no sum of a counter exceeds its width up to the longest message, and either way the same
is compressed, a pending key block once and in front of all blocks. For Poly1305 no operation
fails within the bounds of the limbs. -/
theorem interior_of_split :
    (∀ {π σ : Type} {B : Backend π σ}, Builtin B → ∀ (c : σ) (prior : Nat) (a b : Bytes),
      B.blockLen ∣ a.length → B.blockLen ∣ b.length →
        B.interior c prior (a ++ b) = B.interior (B.interior c prior a) (prior + a.length) b) ∧
    (∀ {v : Blake2.Variant} (c : Blake2.Core v) (prior : Nat) (a b : Bytes),
      v.blockLen ∣ a.length → prior + a.length + b.length ≤ v.maxInput →
        c.callChecked prior (a ++ b) = some (c.interior prior (a ++ b)) ∧
        (c.callChecked prior a >>= (·.callChecked (prior + a.length) b)) =
          some (c.interior prior (a ++ b)) ∧
        (c.interior prior a).pendingKey = none ∧
        ∃ inputs, c.fedChecked [.interior prior (a ++ b)] = some inputs ∧
          c.fedChecked [.interior prior a, .interior (prior + a.length) b] = some inputs ∧
          inputs = ((c.pendingKey.toList.map fun key => ⟨key, v.blockLen, false⟩) ++
            (Bytes.blocks v.blockLen (a ++ b)).mapIdx fun i block =>
              ⟨block, c.counterOffset + prior + (i + 1) * v.blockLen, false⟩) ∧
          c.interior prior (a ++ b) = { inputs.foldl Blake2.Core.step c with pendingKey := none }) ∧
    ∀ (c : Poly1305.Core) (a b : Bytes), Poly1305.blockLen ∣ a.length →
      (c.callChecked a >>= (·.callChecked b)) = c.callChecked (a ++ b) ∧
      (c.InBounds → ∀ prior, c.callChecked (a ++ b) = some (c.interior prior (a ++ b))) := by
  refine ⟨fun h => h.blockwise.interior_append, ?_, fun c a b ha => ?_⟩
  · intro v c prior a b ha h
    have hwhole : prior + (a ++ b).length ≤ v.maxInput := by
      rwa [List.length_append, ← Nat.add_assoc]
    obtain ⟨hone, htwo⟩ := c.fedChecked_interior ha h
    exact ⟨c.callChecked_eq hwhole, c.callChecked_append ha h, rfl, _, hone, htwo, rfl, rfl⟩
  · exact ⟨c.callChecked_append ha b, fun hc prior => hc.callChecked_eq prior (a ++ b)⟩

/-- A key block and two blocks up to the last counter of BLAKE2s, where no message leads, and
limbs of Poly1305 at their bounds. -/
theorem interior_of_split_at_bounds :
    (∃ (c : Blake2.Core .s) (prior : Nat) (a b : Bytes),
      c.keyed = true ∧ c.pendingKey = some (Bytes.zeros 64) ∧ a.length = 64 ∧ b.length = 64 ∧
      prior + a.length + b.length = Blake2.Variant.s.maxInput ∧
      (c.callChecked prior a >>= (·.callChecked (prior + a.length) b)) =
        some (c.interior prior (a ++ b)) ∧
      ∃ inputs, c.fedChecked [.interior prior a, .interior (prior + a.length) b] = some inputs ∧
        inputs.map (·.counter) = [64, 2 ^ 64 - 65, 2 ^ 64 - 1]) ∧
    (∃ c : Poly1305.Core, c.InBounds ∧ c.r = ⟨Poly1305.mask44, Poly1305.mask44, 2 ^ 40 - 1⟩ ∧
      c.h = ⟨Poly1305.mask44, Poly1305.mask44 + 2 ^ 7, Poly1305.mask42⟩ ∧
      (c.callChecked (List.replicate 16 0xff) >>= (·.callChecked (List.replicate 32 0xff))) =
        some (c.interior 0 (List.replicate 16 0xff ++ List.replicate 32 0xff))) ∧
    ∀ c : Ghash.Core, Ghash.backend.interior c 0 (Bytes.zeros 16 ++ Bytes.zeros 32) =
      Ghash.backend.interior (Ghash.backend.interior c 0 (Bytes.zeros 16)) 16
        (Bytes.zeros 32) := by
  obtain ⟨hlaw, hblake2, hpoly1305⟩ := interior_of_split
  refine ⟨?_, ?_, fun c => hlaw .ghash c 0 _ _ (by decide) (by decide)⟩
  · obtain ⟨-, htwo, -, inputs, -, hfed, hinputs, -⟩ := hblake2
      (⟨Vector.replicate 16 0, Vector.replicate 8 1, 32, true, some (Bytes.zeros 64)⟩ :
        Blake2.Core .s) (2 ^ 64 - 193) (Bytes.zeros 64) (List.replicate 64 1) (by decide) (by decide)
    refine ⟨_, _, _, _, rfl, rfl, rfl, rfl, by decide, htwo, inputs, hfed, ?_⟩
    rw [hinputs]
    decide +kernel
  · have hbounds : (⟨⟨Poly1305.mask44, Poly1305.mask44, 2 ^ 40 - 1⟩,
        ⟨Poly1305.mask44, Poly1305.mask44 + 2 ^ 7, Poly1305.mask42⟩, 0, 0⟩ :
          Poly1305.Core).InBounds :=
      ⟨⟨by decide, by decide, by decide⟩, ⟨by decide, by decide, by decide⟩⟩
    obtain ⟨htwo, hone⟩ := hpoly1305 _ (List.replicate 16 0xff) (List.replicate 32 0xff) (by decide)
    exact ⟨_, hbounds, rfl, rfl, htwo.trans (hone hbounds 0)⟩

end StreamDigest
