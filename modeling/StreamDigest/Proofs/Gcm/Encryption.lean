import StreamDigest.Proofs.Gcm.Standard

/-!
# What encryption and decryption compute

Within the limits nothing can fail but the comparison of tags: the counter has
a block for each block of data (`applyKeystream_eq`), and the hash takes in
what is authenticated (`tag_eq`). So encryption is `masked` with `tagOf` behind
it, decryption tests `tagOf` and masks again, and `masked` undoes itself. That
is the encryption of the standard (`encrypt_standard`).
-/

namespace StreamDigest.Gcm

variable {E : BlockCipher} {g : Gcm} {nonce : Nonce} {aad : Bytes}

/-! ## The mask -/

/-- The data with the keystream after the block `j` added. -/
def masked (E : BlockCipher) (j : Block) (data : Bytes) : Bytes :=
  Bytes.xor data (keystream E j (blockCount data.length))

theorem length_keystream (E : BlockCipher) (j : Block) (n : Nat) :
    (keystream E j n).length = 16 * n := by
  simp [keystream, Nat.mul_comm]

theorem le_length_keystream (E : BlockCipher) (j : Block) (len : Nat) :
    len ≤ (keystream E j (blockCount len)).length := by
  rw [length_keystream, blockCount, blockLen]
  omega

@[simp] theorem length_masked (E : BlockCipher) (j : Block) (data : Bytes) :
    (masked E j data).length = data.length := by
  rw [masked, Bytes.length_xor, Nat.min_eq_left (le_length_keystream E j data.length)]

@[simp] theorem masked_masked (E : BlockCipher) (j : Block) (data : Bytes) :
    masked E j (masked E j data) = data := by
  rw [masked, length_masked, masked, Bytes.xor_xor_cancel (le_length_keystream E j data.length)]

theorem blockCount_le {len : Nat} (h : len ≤ maxMessage) : blockCount len ≤ maxBlocks := by
  unfold blockCount maxBlocks blockLen
  unfold maxMessage at h
  omega

theorem applyKeystream_eq (j : Block) {data : Bytes} (h : data.length ≤ maxMessage) :
    applyKeystream E j data = .ok (masked E j data) := if_pos (blockCount_le h)

/-! ## The tag -/

/-- The hash of what is authenticated, masked with the encryption of `j`. -/
def tagOf (g : Gcm) (j : Block) (aad ciphertext : Bytes) : Bytes :=
  Bytes.xor (Ghash.digest g.hashKey (authenticated aad ciphertext).flatten) (g.cipher j).toBytes

@[simp] theorem length_tagOf (g : Gcm) (j : Block) (aad ciphertext : Bytes) :
    (tagOf g j aad ciphertext).length = 16 := by
  rw [tagOf, Bytes.length_xor, Ghash.digest, Ghash.length_blockOf, length_block, Nat.min_self]

theorem length_padding_le (len : Nat) : (padding len).length ≤ 16 := by
  rw [padding, Bytes.length_zeros, blockLen]
  omega

theorem length_authenticated_le {ciphertext : Bytes} (hc : ciphertext.length ≤ maxMessage)
    (ha : aad.length ≤ maxAad) :
    (authenticated aad ciphertext).flatten.length ≤ Ghash.backend.maxInput := by
  have := length_padding_le aad.length
  have := length_padding_le ciphertext.length
  simp only [authenticated, lengthBlock, List.flatten_cons, List.flatten_nil, List.length_append,
    List.length_nil, Bytes.length_toBE]
  unfold maxAad at ha
  unfold maxMessage at hc
  change _ ≤ 0xffff_ffff_ffff_ffff
  omega

theorem tagHash_eq (key : Ghash.Key) {ciphertext : Bytes} (ha : aad.length ≤ maxAad)
    (hc : ciphertext.length ≤ maxMessage) :
    tagHash key aad ciphertext =
      .ok (Ghash.digest key (authenticated aad ciphertext).flatten) := by
  obtain ⟨s, hs, hupdate, hfinish⟩ := Ghash.finish_updateAll key _ (length_authenticated_le hc ha)
  rw [tagHash, hs, except_ok_bind, hupdate, except_ok_bind]
  exact hfinish

theorem tag_eq (j : Block) {ciphertext : Bytes} (ha : aad.length ≤ maxAad)
    (hc : ciphertext.length ≤ maxMessage) :
    g.tag j aad ciphertext = .ok (tagOf g j aad ciphertext) := by
  rw [tag, tagHash_eq g.hashKey ha hc]
  rfl

/-! ## The operations -/

theorem checkLengths_eq_ok {message aad : Nat} :
    checkLengths message aad = .ok () ↔ message ≤ maxMessage ∧ aad ≤ maxAad := by
  unfold checkLengths
  split_ifs <;> simp <;> omega

theorem encryptInPlace_eq {plaintext : Bytes} (hm : plaintext.length ≤ maxMessage)
    (ha : aad.length ≤ maxAad) :
    g.encryptInPlace nonce aad plaintext =
      .ok (tagOf g (preCounter nonce) aad (masked g.cipher (preCounter nonce) plaintext))
        (masked g.cipher (preCounter nonce) plaintext) := by
  unfold encryptInPlace
  rw [checkLengths_eq_ok.2 ⟨hm, ha⟩, applyKeystream_eq _ hm]
  dsimp only
  rw [tag_eq _ ha (by rwa [length_masked])]

/-- Encryption succeeds within the limits and nowhere else. -/
theorem encryptInPlace_eq_ok {plaintext tag ciphertext : Bytes} :
    g.encryptInPlace nonce aad plaintext = .ok tag ciphertext ↔
      plaintext.length ≤ maxMessage ∧ aad.length ≤ maxAad ∧
      ciphertext = masked g.cipher (preCounter nonce) plaintext ∧
      tag = tagOf g (preCounter nonce) aad ciphertext := by
  constructor
  · intro h
    have hlen : plaintext.length ≤ maxMessage ∧ aad.length ≤ maxAad := by
      rw [← checkLengths_eq_ok]
      unfold encryptInPlace at h
      split at h
      · cases h
      · assumption
    rw [encryptInPlace_eq hlen.1 hlen.2] at h
    cases h
    exact ⟨hlen.1, hlen.2, rfl, rfl⟩
  · rintro ⟨hm, ha, rfl, rfl⟩
    exact encryptInPlace_eq hm ha

theorem decryptInPlace_eq {tag : Tag} {ciphertext : Bytes} (hm : ciphertext.length ≤ maxMessage)
    (ha : aad.length ≤ maxAad) :
    g.decryptInPlace nonce aad tag ciphertext =
      if tagOf g (preCounter nonce) aad ciphertext = tag.toBytes then
        .ok () (masked g.cipher (preCounter nonce) ciphertext)
      else .error .authentication ciphertext := by
  unfold decryptInPlace
  rw [checkLengths_eq_ok.2 ⟨hm, ha⟩, tag_eq _ ha hm, applyKeystream_eq _ hm]

theorem decryptInPlace_eq_ok {tag : Tag} {plaintext ciphertext : Bytes} :
    g.decryptInPlace nonce aad tag ciphertext = .ok () plaintext ↔
      ciphertext.length ≤ maxMessage ∧ aad.length ≤ maxAad ∧
      tagOf g (preCounter nonce) aad ciphertext = tag.toBytes ∧
      plaintext = masked g.cipher (preCounter nonce) ciphertext := by
  constructor
  · intro h
    have hlen : ciphertext.length ≤ maxMessage ∧ aad.length ≤ maxAad := by
      rw [← checkLengths_eq_ok]
      unfold decryptInPlace at h
      split at h
      · cases h
      · assumption
    rw [decryptInPlace_eq hlen.1 hlen.2] at h
    split at h
    · cases h
      exact ⟨hlen.1, hlen.2, ‹_›, rfl⟩
    · cases h
  · rintro ⟨hm, ha, htag, rfl⟩
    rw [decryptInPlace_eq hm ha, if_pos htag]

theorem encrypt_eq_ok {plaintext sealedBytes : Bytes} :
    g.encrypt nonce plaintext aad = .ok sealedBytes ↔
      ∃ tag ciphertext, g.encryptInPlace nonce aad plaintext = .ok tag ciphertext ∧
        sealedBytes = ciphertext ++ tag := by
  unfold encrypt EStateM.run
  split
  · rename_i tag ciphertext h
    simp only [Except.ok.injEq, h, EStateM.Result.ok.injEq]
    constructor
    · rintro rfl
      exact ⟨tag, ciphertext, ⟨rfl, rfl⟩, rfl⟩
    · rintro ⟨_, _, ⟨rfl, rfl⟩, rfl⟩
      rfl
  · rename_i h
    simp [h]

theorem encrypt_eq {plaintext : Bytes} (hm : plaintext.length ≤ maxMessage)
    (ha : aad.length ≤ maxAad) :
    g.encrypt nonce plaintext aad =
      .ok (masked g.cipher (preCounter nonce) plaintext ++
        tagOf g (preCounter nonce) aad (masked g.cipher (preCounter nonce) plaintext)) :=
  encrypt_eq_ok.2 ⟨_, _, encryptInPlace_eq hm ha, rfl⟩

/-- What decryption takes apart is a ciphertext and a tag. -/
theorem decrypt_append (body : Bytes) (tag : Tag) :
    g.decrypt nonce (body ++ tag.toBytes) aad =
      match (g.decryptInPlace nonce aad tag).run body with
      | .ok () plaintext => .ok plaintext
      | .error e _ => .error e := by
  have htag : tag.toBytes.length = tagLen := tag.length_toBytes
  have hlen : (body ++ tag.toBytes).length = body.length + tagLen := by
    rw [List.length_append, htag]
  have hsplit : Bytes.cut ((body ++ tag.toBytes).length - tagLen) (body ++ tag.toBytes) =
      .ok (body, tag.toBytes) := by
    rw [hlen, Nat.add_sub_cancel, Bytes.cut_eq (by omega), List.take_left, List.drop_left]
  have hread : FixedBytes.ofBytes tagLen tag.toBytes = .ok tag := FixedBytes.ofBytes_eq_ok.2 rfl
  unfold decrypt
  rw [if_neg (by omega), hsplit]
  dsimp only
  rw [except_ok_bind, hread]
  rfl

/-- Within the limits a failed comparison is the only failure. -/
theorem decrypt_append_eq {body : Bytes} {tag : Tag} (hm : body.length ≤ maxMessage)
    (ha : aad.length ≤ maxAad) :
    g.decrypt nonce (body ++ tag.toBytes) aad =
      if tagOf g (preCounter nonce) aad body = tag.toBytes then
        .ok (masked g.cipher (preCounter nonce) body)
      else .error .authentication := by
  rw [decrypt_append, EStateM.run, decryptInPlace_eq hm ha]
  split_ifs <;> rfl

theorem decrypt_of_short {bs : Bytes} (h : bs.length < tagLen) :
    g.decrypt nonce bs aad = .error (.ciphertextLength bs.length tagLen) := by
  unfold decrypt
  rw [if_pos h]
  rfl

/-- Bytes that decrypt are a ciphertext and its tag. -/
theorem decrypt_eq_ok {bs plaintext : Bytes} :
    g.decrypt nonce bs aad = .ok plaintext ↔
      ∃ body, ∃ tag : Tag, bs = body ++ tag.toBytes ∧
        g.decryptInPlace nonce aad tag body = .ok () plaintext := by
  have happend : ∀ body, ∀ tag : Tag, g.decrypt nonce (body ++ tag.toBytes) aad = .ok plaintext ↔
      g.decryptInPlace nonce aad tag body = .ok () plaintext := by
    intro body tag
    rw [decrypt_append, EStateM.run]
    split <;> simp_all
  constructor
  · intro h
    by_cases hshort : bs.length < tagLen
    · rw [decrypt_of_short hshort] at h
      cases h
    · have hlast : (bs.drop (bs.length - tagLen)).length = tagLen := by
        rw [List.length_drop]
        omega
      obtain ⟨tag, htag⟩ := FixedBytes.exists_toBytes hlast
      have hbs : bs = bs.take (bs.length - tagLen) ++ tag.toBytes := by
        rw [htag, List.take_append_drop]
      refine ⟨_, tag, hbs, ?_⟩
      rwa [← happend, ← hbs]
  · rintro ⟨body, tag, rfl, h⟩
    exact (happend body tag).2 h

/-! ## The standard -/

theorem tagOf_eq (g : Gcm) (nonce : Nonce) (aad ciphertext : Bytes) :
    tagOf g (preCounter nonce) aad ciphertext = Standard.tag g.cipher nonce aad ciphertext := by
  have hblocks : ∀ x ∈ Bytes.blocks 16 (Standard.authenticated aad ciphertext), x.length = 16 :=
    fun _ => Bytes.length_of_mem_blocks
  rw [tagOf, Standard.tag, Standard.initial_eq, Bytes.xor_comm, Ghash.digest,
    ← Standard.authenticated_eq,
    Ghash.elements_of_dvd (Standard.dvd_length_authenticated aad ciphertext),
    Standard.ghash_eq (length_block _) hblocks]
  rfl

/-- **Encryption is that of the standard**, for any block cipher and so for
AES-256 under any key. -/
theorem encrypt_standard (nonce : Nonce) {plaintext aad : Bytes}
    (hm : plaintext.length ≤ 2 ^ 36 - 32) (ha : aad.length ≤ 2 ^ 61 - 1) :
    (∀ g : Gcm,
      let ciphertext := Standard.ciphertext g.cipher nonce plaintext
      let tag := Standard.tag g.cipher nonce aad ciphertext
      ciphertext.length = plaintext.length ∧ tag.length = 16 ∧
      g.encryptInPlace nonce aad plaintext = .ok tag ciphertext ∧
      g.encrypt nonce plaintext aad = .ok (ciphertext ++ tag)) ∧
    ∀ key : Key,
      let E := Aes.encrypt (Aes.expand key)
      let ciphertext := Standard.ciphertext E nonce plaintext
      encryptWith key nonce plaintext aad =
        .ok (ciphertext ++ Standard.tag E nonce aad ciphertext) := by
  have hmasked : ∀ E : BlockCipher,
      Standard.ciphertext E nonce plaintext = masked E (preCounter nonce) plaintext :=
    fun E => Standard.ciphertext_eq E nonce plaintext
  refine ⟨fun g => ?_, fun key => ?_⟩
  · simp only [hmasked, ← tagOf_eq]
    exact ⟨length_masked _ _ _, length_tagOf _ _ _ _, encryptInPlace_eq hm ha, encrypt_eq hm ha⟩
  · change (ofKey key).encrypt nonce plaintext aad =
      .ok (Standard.ciphertext (ofKey key).cipher nonce plaintext ++
        Standard.tag (ofKey key).cipher nonce aad
          (Standard.ciphertext (ofKey key).cipher nonce plaintext))
    rw [hmasked, ← tagOf_eq]
    exact encrypt_eq hm ha

/-- A short last block on both sides. -/
theorem encrypt_standard_of_short :
    let E := Aes.encrypt (Aes.expand (FixedBytes.zero 32))
    let ciphertext := Standard.ciphertext E (FixedBytes.zero 12) (Bytes.zeros 20)
    encryptWith (FixedBytes.zero 32) (FixedBytes.zero 12) (Bytes.zeros 20) [1, 2, 3] =
      .ok (ciphertext ++ Standard.tag E (FixedBytes.zero 12) [1, 2, 3] ciphertext) :=
  (encrypt_standard (FixedBytes.zero 12) (by decide) (by decide)).2 (FixedBytes.zero 32)

end StreamDigest.Gcm
