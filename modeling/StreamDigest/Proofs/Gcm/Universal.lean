import StreamDigest.Proofs.Gcm.Tampering
import StreamDigest.Proofs.Ghash.Evaluation

/-!
# The tag's hash under all hash keys

The hash of a message is the value, at the hash key, of the polynomial with the
message's elements as coefficients (`value_accumulate`). What is hashed for
associated data and ciphertext tells the two: the last element has their
lengths, and at these lengths the other elements have their bytes
(`eq_of_authenticated`). So the hashes of two pairs have a given difference
under few of the `2 ^ 128` hash keys, whatever the pairs.
-/

namespace StreamDigest

namespace Ghash

/-- At a given length the elements tell the message. -/
theorem eq_of_elements {a b : Bytes} (hlen : a.length = b.length) (h : elements a = elements b) :
    a = b :=
  Bytes.eq_of_map_segments (by decide)
    (fun i hi => elementOf_padTo_inj (List.length_take_le 16 _) (by simp [hlen]) hi) h

/-- A key is an element. -/
theorem elementOf_key_bijective : Function.Bijective fun key : Key => elementOf key.toBytes := by
  constructor
  · intro key key' h
    exact FixedBytes.toBytes_injective (elementOf_inj key.length_toBytes key'.length_toBytes h)
  · intro x
    obtain ⟨key, hkey⟩ : ∃ key : Key, key.toBytes = blockOf x :=
      FixedBytes.exists_toBytes (length_blockOf x)
    exact ⟨key, (congrArg elementOf hkey).trans (elementOf_blockOf x)⟩

theorem card_key : Nat.card Key = 2 ^ 128 := by
  rw [Nat.card_eq_of_bijective _ elementOf_key_bijective,
    Nat.card_congr BitVec.equivFin.toEquiv, Nat.card_fin]

/-- Digests with a given difference, in the field. -/
theorem horner_of_xor_digest {key : Key} {m m' d : Bytes}
    (h : Bytes.xor (digest key m) (digest key m') = d) :
    horner (value (elementOf key.toBytes)) ((elements m).map value) =
      horner (value (elementOf key.toBytes)) ((elements m').map value) + value (elementOf d) := by
  rw [← value_accumulate, ← value_accumulate, ← value_xor, ← h, digest, digest,
    elementOf_xor (length_blockOf _) (length_blockOf _), elementOf_blockOf, elementOf_blockOf,
    BitVec.xor_comm (accumulate _ 0 (elements m)), ← BitVec.xor_assoc, BitVec.xor_self,
    BitVec.zero_xor]

/-- Messages whose polynomials differ by more than a constant have a given difference
under few keys. -/
theorem encard_keys_digest_le {m m' : Bytes} (d : Bytes)
    (h : ∀ c, messagePolynomial ((elements m).map value) ≠
      messagePolynomial ((elements m').map value) + Polynomial.C c) :
    {key : Key | Bytes.xor (digest key m) (digest key m') = d}.encard ≤
      (max (elements m).length (elements m').length : ℕ) := by
  have hroots := encard_keys_le (h (value (elementOf d)))
  rw [List.length_map, List.length_map] at hroots
  have hinj : Function.Injective fun key : Key => value (elementOf key.toBytes) :=
    value_injective.comp elementOf_key_bijective.1
  have hmaps : Set.MapsTo (fun key : Key => value (elementOf key.toBytes))
      {key | Bytes.xor (digest key m) (digest key m') = d}
      {k | horner k ((elements m).map value) =
        horner k ((elements m').map value) + value (elementOf d)} :=
    fun key hkey => horner_of_xor_digest hkey
  exact (Set.encard_le_encard_of_injOn hmaps hinj.injOn).trans hroots

end Ghash

namespace Gcm

open Ghash (elements value)

variable {aad ciphertext aad' ciphertext' : Bytes}

theorem elements_lengthBlock (a c : Nat) :
    elements (lengthBlock a c) = [Ghash.elementOf (lengthBlock a c)] := by
  have hlen : (lengthBlock a c).length = 16 := by simp [lengthBlock]
  rw [Ghash.elements_of_le (List.ne_nil_of_length_pos (by omega)) hlen.le,
    Bytes.padTo_of_length hlen.ge]

/-- Lengths within the limits are read back from their block. -/
theorem lengthBlock_inj {a c a' c' : Nat} (ha : a ≤ maxAad) (hc : c ≤ maxMessage)
    (ha' : a' ≤ maxAad) (hc' : c' ≤ maxMessage) (h : lengthBlock a c = lengthBlock a' c') :
    a = a' ∧ c = c' := by
  obtain ⟨haad, hciphertext⟩ := List.append_inj h (by simp)
  replace haad := congrArg Bytes.ofBE haad
  replace hciphertext := congrArg Bytes.ofBE hciphertext
  rw [Bytes.ofBE_toBE, Bytes.ofBE_toBE] at haad hciphertext
  unfold maxAad at ha ha'
  unfold maxMessage at hc hc'
  omega

/-- What is hashed tells associated data and ciphertext, even if a constant is added to
its polynomial. -/
theorem eq_of_authenticated (ha : aad.length ≤ maxAad) (hc : ciphertext.length ≤ maxMessage)
    (ha' : aad'.length ≤ maxAad) (hc' : ciphertext'.length ≤ maxMessage) {d}
    (h : messagePolynomial ((elements (authenticated aad ciphertext).flatten).map value) =
      messagePolynomial ((elements (authenticated aad' ciphertext').flatten).map value) +
        Polynomial.C d) :
    aad = aad' ∧ ciphertext = ciphertext' := by
  rw [elements_authenticated, elements_authenticated, elements_lengthBlock,
    elements_lengthBlock] at h
  -- the last element is the block of lengths
  have hlast := getD_reverse_eq h 0
  simp only [List.map_append, List.map_cons, List.map_nil, List.reverse_append,
    List.reverse_singleton, List.cons_append,
    List.getD_cons_zero] at hlast
  have hblock : lengthBlock aad.length ciphertext.length =
      lengthBlock aad'.length ciphertext'.length :=
    Ghash.elementOf_inj (by simp [lengthBlock]) (by simp [lengthBlock])
      (Ghash.value_injective hlast)
  obtain ⟨haad, hciphertext⟩ := lengthBlock_inj ha hc ha' hc' hblock
  -- so there are as many elements of either on both sides
  have hla : (elements aad).length = (elements aad').length := by
    rw [Ghash.length_elements, Ghash.length_elements, haad]
  have hlc : (elements ciphertext).length = (elements ciphertext').length := by
    rw [Ghash.length_elements, Ghash.length_elements, hciphertext]
  have hall := List.map_injective_iff.2 Ghash.value_injective
    (eq_of_messagePolynomial_eq (by simp [hla, hlc]) h)
  obtain ⟨hea, hrest⟩ := List.append_inj hall hla
  exact ⟨Ghash.eq_of_elements haad hea,
    Ghash.eq_of_elements hciphertext (List.append_inj hrest hlc).1⟩

/-- The number of elements hashed for associated data and ciphertext. -/
theorem length_elements_authenticated (aad ciphertext : Bytes) :
    (elements (authenticated aad ciphertext).flatten).length =
      aad.length ⌈/⌉ 16 + ciphertext.length ⌈/⌉ 16 + 1 := by
  rw [elements_authenticated, elements_lengthBlock, List.length_append, List.length_append,
    Ghash.length_elements, Ghash.length_elements, List.length_singleton, Nat.add_assoc]

/-- **The tag's hash is almost universal.** Two pairs of associated data and ciphertext
that are not the same have hashes under every hash key, and hashes with a given difference
under no more keys than the longer pair has blocks. -/
theorem encard_keys_tagHash_le (ha : aad.length ≤ 2 ^ 61 - 1)
    (hc : ciphertext.length ≤ 2 ^ 36 - 32) (ha' : aad'.length ≤ 2 ^ 61 - 1)
    (hc' : ciphertext'.length ≤ 2 ^ 36 - 32) (hne : (aad, ciphertext) ≠ (aad', ciphertext'))
    (d : FixedBytes 16) :
    Nat.card Ghash.Key = 2 ^ 128 ∧
    (∀ key, ∃ x y, tagHash key aad ciphertext = .ok x ∧ tagHash key aad' ciphertext' = .ok y) ∧
    {key | ∃ x y, tagHash key aad ciphertext = .ok x ∧ tagHash key aad' ciphertext' = .ok y ∧
        Bytes.xor x y = d.toBytes}.encard ≤
      (max (aad.length ⌈/⌉ 16 + ciphertext.length ⌈/⌉ 16 + 1)
        (aad'.length ⌈/⌉ 16 + ciphertext'.length ⌈/⌉ 16 + 1) : ℕ) := by
  refine ⟨Ghash.card_key, fun key => ⟨_, _, tagHash_eq key ha hc, tagHash_eq key ha' hc'⟩, ?_⟩
  have hpolynomial : ∀ c,
      messagePolynomial ((elements (authenticated aad ciphertext).flatten).map value) ≠
        messagePolynomial ((elements (authenticated aad' ciphertext').flatten).map value) +
          Polynomial.C c := by
    intro c h
    obtain ⟨haad, hciphertext⟩ := eq_of_authenticated ha hc ha' hc' h
    exact hne (Prod.ext haad hciphertext)
  have hkeys := Ghash.encard_keys_digest_le d.toBytes hpolynomial
  rw [length_elements_authenticated, length_elements_authenticated] at hkeys
  refine le_trans (Set.encard_le_encard ?_) hkeys
  rintro key ⟨x, y, hx, hy, hxor⟩
  rw [tagHash_eq key ha hc] at hx
  rw [tagHash_eq key ha' hc'] at hy
  cases hx
  cases hy
  exact hxor

/-- A zero byte that moves from the associated data to the ciphertext. -/
theorem encard_keys_tagHash_le_of_moved :
    (([0], []) : Bytes × Bytes) ≠ ([], [0]) ∧
    {key | ∃ x y, tagHash key [0] [] = .ok x ∧ tagHash key [] [0] = .ok y ∧
        Bytes.xor x y = Bytes.zeros 16}.encard ≤ 2 := by
  have hne : (([0], []) : Bytes × Bytes) ≠ ([], [0]) := by decide
  refine ⟨hne, ?_⟩
  have h := (encard_keys_tagHash_le (by decide) (by decide) (by decide) (by decide) hne
    (FixedBytes.zero 16)).2.2
  exact h

end Gcm

end StreamDigest
