import StreamDigest.Proofs.Poly1305.Overflow

/-!
# The final reduction

The accumulator that a message leaves has limbs within `Limbs.Partial`. The
reduction takes more: the middle limb may have a whole bit too many. Two passes
of carries bring all such limbs within their bits, though nothing is carried on
out of the middle limb at the end, and one subtraction of the modulus is then
enough.
-/

namespace StreamDigest.Poly1305.Core

variable {c : Core}

/-- **The final reduction is exact** for every accumulator within its bounds, any
multiplier and any pad. The carries leave limbs within their bits, the modulus is
taken off once where it is reached, and the tag is the residue and the pad. -/
theorem extract_exact (h₀ : c.h.x₀.toNat < 2 ^ 44) (h₁ : c.h.x₁.toNat < 2 ^ 45)
    (h₂ : c.h.x₂.toNat < 2 ^ 42) :
    -- the output, in sixteen bytes or at the front of more
    (∀ out : Bytes, 16 ≤ out.length → backend.extractChecked c out =
      .ok (Bytes.toLE 16
        (((c.h.x₀.toNat + 2 ^ 44 * c.h.x₁.toNat + 2 ^ 88 * c.h.x₂.toNat) % (2 ^ 130 - 5) +
          c.pad.1.toNat + 2 ^ 64 * c.pad.2.toNat) % 2 ^ 128) ++ out.drop 16)) ∧
    -- no sum on the way exceeds a word
    c.tagChecked = some c.tag ∧
    -- the limbs after the carries
    c.h.carry.carry.x₀.toNat < 2 ^ 44 ∧ c.h.carry.carry.x₁.toNat < 2 ^ 44 ∧
    c.h.carry.carry.x₂.toNat < 2 ^ 42 ∧
    c.h.carry.carry.value ≡ c.h.value [MOD 2 ^ 130 - 5] ∧
    -- the modulus and the numbers from there to `2 ^ 130` are reduced, smaller ones stay
    (c.h.carry.carry.value < 2 ^ 130 - 5 → c.h.reduce = c.h.carry.carry) ∧
    ∀ k, c.h.carry.carry.value = 2 ^ 130 - 5 + k → k < 5 ∧ c.h.reduce.value = k := by
  obtain ⟨hcarried, hvalue⟩ := Limbs.carry_carry_spec h₀ h₁ h₂
  obtain ⟨hreduced, hresidue⟩ := Limbs.reduce_spec h₀ h₁ h₂
  have hlt := hcarried.value_lt
  refine ⟨fun out hout => ?_, tagChecked_eq h₀ h₁ h₂, hcarried.x₀_lt, hcarried.x₁_lt,
    hcarried.x₂_lt, hvalue, fun hbelow => ?_, fun k hk => ?_⟩
  · have hextract : backend.extractChecked c out = .ok (c.tag ++ out.drop 16) :=
      if_pos (decide_eq_true hout)
    rw [hextract, tag_eq h₀ h₁ h₂, ← Nat.add_assoc]
    rfl
  · apply hreduced.eq_of_value hcarried
    rw [hresidue, ← hvalue]
    exact Nat.mod_eq_of_lt hbelow
  · have hfive : k < 5 := by omega
    refine ⟨hfive, ?_⟩
    rw [hresidue, ← hvalue, hk, modulus, Nat.add_mod_left]
    exact Nat.mod_eq_of_lt (by omega)

/-- All limbs at their bounds, where both passes carry, and the modulus itself. -/
theorem extract_exact_at_bounds :
    (∃ c : Core, c.h = ⟨mask44, 2 ^ 45 - 1, mask42⟩ ∧ c.h.carry.x₁ = 2 ^ 44 ∧
      c.h.x₀.toNat < 2 ^ 44 ∧ c.h.x₁.toNat < 2 ^ 45 ∧ c.h.x₂.toNat < 2 ^ 42 ∧
      backend.extractChecked c (List.replicate 17 0x5a) =
        .ok (Bytes.toLE 16 (2 ^ 88 + 3) ++ [0x5a]) ∧ c.h.carry.carry.x₁.toNat < 2 ^ 44) ∧
    ∃ c : Core, c.h = ⟨mask44 - 4, mask44, mask42⟩ ∧
      c.h.x₀.toNat < 2 ^ 44 ∧ c.h.x₁.toNat < 2 ^ 45 ∧ c.h.x₂.toNat < 2 ^ 42 ∧
      c.h.reduce.value = 0 := by
  have hover := extract_exact
    (c := ⟨.zero, ⟨mask44, 2 ^ 45 - 1, mask42⟩, (BitVec.allOnes 64, BitVec.allOnes 64)⟩)
    (by decide) (by decide) (by decide)
  have hmodulus := extract_exact (c := ⟨.zero, ⟨mask44 - 4, mask44, mask42⟩, (0, 0)⟩)
    (by decide) (by decide) (by decide)
  obtain ⟨hout, -, -, hmiddle, -⟩ := hover
  obtain ⟨-, -, -, -, -, -, -, hfrom⟩ := hmodulus
  refine ⟨⟨_, rfl, by decide, by decide, by decide, by decide, ?_, hmiddle⟩,
    ⟨_, rfl, by decide, by decide, by decide, (hfrom 0 (by decide)).2⟩⟩
  exact (hout (List.replicate 17 0x5a) (by decide)).trans (by decide)

end StreamDigest.Poly1305.Core
