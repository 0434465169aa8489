import StreamDigest.Proofs.Gcm.Encryption

/-!
# Decryption inverts encryption

In place, both sides say the same: the ciphertext is the masked plaintext and
the tag is that of the ciphertext (`decryptInPlace_iff`). With the tag behind
the ciphertext nothing is lost either (`decrypt_iff`), so a ciphertext that is
accepted has one plaintext, and one tag.
-/

namespace StreamDigest.Gcm

variable {g : Gcm} {nonce : Nonce} {aad : Bytes}

theorem decryptInPlace_iff {tag : Tag} {ciphertext plaintext : Bytes} :
    g.decryptInPlace nonce aad tag ciphertext = .ok () plaintext ↔
      plaintext.length ≤ maxMessage ∧
      g.encryptInPlace nonce aad plaintext = .ok tag.toBytes ciphertext := by
  rw [decryptInPlace_eq_ok, encryptInPlace_eq_ok]
  constructor
  · rintro ⟨hm, ha, htag, rfl⟩
    rw [length_masked, masked_masked]
    exact ⟨hm, hm, ha, rfl, htag.symm⟩
  · rintro ⟨hm, -, ha, rfl, htag⟩
    rw [length_masked, masked_masked]
    exact ⟨hm, ha, htag.symm, rfl⟩

theorem decrypt_iff {bs plaintext : Bytes} :
    g.decrypt nonce bs aad = .ok plaintext ↔
      plaintext.length ≤ maxMessage ∧ g.encrypt nonce plaintext aad = .ok bs := by
  rw [decrypt_eq_ok, encrypt_eq_ok]
  constructor
  · rintro ⟨body, tag, rfl, h⟩
    obtain ⟨hm, h⟩ := decryptInPlace_iff.1 h
    exact ⟨hm, tag.toBytes, body, h, rfl⟩
  · rintro ⟨hm, tag, ciphertext, h, rfl⟩
    have hlen : tag.length = tagLen := by
      rw [(encryptInPlace_eq_ok.1 h).2.2.2, length_tagOf]
      rfl
    obtain ⟨tag, rfl⟩ := FixedBytes.exists_toBytes hlen
    exact ⟨ciphertext, tag, rfl, decryptInPlace_iff.2 ⟨hm, h⟩⟩

/-- Within the limits, a ciphertext is accepted with its own tag only. -/
theorem accepts_iff {body : Bytes} {tag : Tag} (hm : body.length ≤ maxMessage)
    (ha : aad.length ≤ maxAad) :
    (∃ plaintext, g.decrypt nonce (body ++ tag.toBytes) aad = .ok plaintext) ↔
      tagOf g (preCounter nonce) aad body = tag.toBytes := by
  rw [decrypt_append_eq hm ha]
  split_ifs with h <;> simp [h]

/-- **Decryption accepts exactly what encryption produces.** -/
theorem decrypt_exact (nonce : Nonce) {aad : Bytes} (ha : aad.length ≤ 2 ^ 61 - 1) :
    (∀ g : Gcm,
      (∀ bs plaintext, g.decrypt nonce bs aad = .ok plaintext ↔
        plaintext.length ≤ 2 ^ 36 - 32 ∧ g.encrypt nonce plaintext aad = .ok bs) ∧
      -- each undoes the other
      (∀ plaintext, plaintext.length ≤ 2 ^ 36 - 32 →
        ∃ bs, g.encrypt nonce plaintext aad = .ok bs ∧ g.decrypt nonce bs aad = .ok plaintext) ∧
      (∀ bs plaintext, g.decrypt nonce bs aad = .ok plaintext →
        g.encrypt nonce plaintext aad = .ok bs ∧
        ∀ other, g.encrypt nonce other aad = .ok bs → other = plaintext) ∧
      -- one of all tags is accepted
      (∀ body, body.length ≤ 2 ^ 36 - 32 →
        ∃! tag : Tag, ∃ plaintext, g.decrypt nonce (body ++ tag.toBytes) aad = .ok plaintext) ∧
      -- the same in place
      ∀ tag : Tag, ∀ ciphertext plaintext,
        g.decryptInPlace nonce aad tag ciphertext = .ok () plaintext ↔
          plaintext.length ≤ 2 ^ 36 - 32 ∧
          g.encryptInPlace nonce aad plaintext = .ok tag.toBytes ciphertext) ∧
    -- and under a key used once
    ∀ key : Key,
      (∀ plaintext, encryptWith key nonce plaintext aad = (ofKey key).encrypt nonce plaintext aad) ∧
      ∀ bs, decryptWith key nonce bs aad = (ofKey key).decrypt nonce bs aad := by
  refine ⟨fun g => ⟨fun bs plaintext => decrypt_iff, ?_, ?_, ?_,
    fun tag ciphertext plaintext => decryptInPlace_iff⟩,
    fun key => ⟨fun plaintext => rfl, fun bs => rfl⟩⟩
  · intro plaintext hm
    exact ⟨_, encrypt_eq hm ha, decrypt_iff.2 ⟨hm, encrypt_eq hm ha⟩⟩
  · intro bs plaintext h
    refine ⟨(decrypt_iff.1 h).2, fun other hother => ?_⟩
    obtain ⟨tag, ciphertext, hplace, -⟩ := encrypt_eq_ok.1 hother
    have hdecrypt := decrypt_iff.2 ⟨(encryptInPlace_eq_ok.1 hplace).1, hother⟩
    rw [h] at hdecrypt
    exact (Except.ok.inj hdecrypt).symm
  · intro body hm
    obtain ⟨tag, htag⟩ := FixedBytes.exists_toBytes (length_tagOf g (preCounter nonce) aad body)
    refine ⟨tag, (accepts_iff hm ha).2 htag.symm, fun other hother => ?_⟩
    have h := (accepts_iff hm ha).1 hother
    exact FixedBytes.toBytes_injective (h.symm.trans htag.symm)

/-- What was encrypted with associated data of three bytes comes back. -/
theorem decrypt_exact_of_short :
    ∃ bs, encryptWith (FixedBytes.zero 32) (FixedBytes.zero 12) (Bytes.zeros 20) [1, 2, 3] = .ok bs ∧
      decryptWith (FixedBytes.zero 32) (FixedBytes.zero 12) bs [1, 2, 3] = .ok (Bytes.zeros 20) := by
  have h := decrypt_exact (FixedBytes.zero 12) (show ([1, 2, 3] : Bytes).length ≤ 2 ^ 61 - 1 by decide)
  obtain ⟨hencrypt, hdecrypt⟩ := h.2 (FixedBytes.zero 32)
  simp only [hencrypt, hdecrypt]
  exact (h.1 (ofKey (FixedBytes.zero 32))).2.1 (Bytes.zeros 20) (by decide)

end StreamDigest.Gcm
