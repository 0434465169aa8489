import StreamDigest.Proofs.Gcm.Encryption

/-!
# Failures of authenticated encryption

Lengths are checked before anything is done (`checkLengths_eq_error`). Behind
the check nothing can fail any more but the comparison of tags: the counter has
a block for each block of data, the lengths in bits have 64 bits, and what the
hash takes in stays within its limit at every chunk (`update_authenticated`). So
encryption, which changes the data before it computes the tag, fails only where
it has not begun (`encryptInPlace_eq_error`), and decryption only before it
begins (`decryptInPlace_eq_error`).
-/

namespace StreamDigest

/-- A failure that is known by its text. -/
def Error.IsMessage (e : Error) : Prop := ∃ text, e.inspect = .tuple "Message" [text]

namespace Gcm

variable {g : Gcm} {nonce : Nonce} {aad : Bytes}

/-- What is said of lengths beyond the limits. The message comes first. -/
inductive TooLong (message aad : Nat) : Error → Prop where
  | message (h : 2 ^ 36 - 32 < message) :
      TooLong message aad (.lengthOverflow 0 message (2 ^ 36 - 32))
  | aad (hm : message ≤ 2 ^ 36 - 32) (h : 2 ^ 61 - 1 < aad) :
      TooLong message aad (.lengthOverflow 0 aad (2 ^ 61 - 1))

theorem checkLengths_eq_error {message aad : Nat} {e : Error} :
    checkLengths message aad = .error e ↔ TooLong message aad e := by
  constructor
  · intro h
    unfold checkLengths at h
    split_ifs at h with hm ha
    · cases h
      exact .message hm
    · cases h
      exact .aad (Nat.le_of_not_lt hm) ha
  · rintro (h | ⟨hm, h⟩)
    · exact if_pos h
    · exact (if_neg (Nat.not_lt.2 hm)).trans (if_pos h)

theorem TooLong.not_isMessage {message aad : Nat} {e : Error} (h : TooLong message aad e) :
    ¬ e.IsMessage := by
  rintro ⟨text, htext⟩
  cases h <;> cases htext

/-! ## Behind the check -/

/-- Each chunk finds a stream that took in the chunks before it, and has room. -/
theorem update_authenticated (key : Ghash.Key) {ciphertext : Bytes}
    (hc : ciphertext.length ≤ maxMessage) (ha : aad.length ≤ maxAad)
    {before after : List Bytes} {chunk : Bytes}
    (h : authenticated aad ciphertext = before ++ chunk :: after) :
    ∃ s s', Stream.create Ghash.backend key >>= (·.updateAll before) = .ok s ∧
      s.total + chunk.length ≤ Ghash.backend.maxInput ∧ s.update chunk = .ok s' := by
  have hlimit := length_authenticated_le hc ha
  rw [h, List.flatten_append, List.length_append, List.flatten_cons, List.length_append] at hlimit
  have hinit : Ghash.backend.init key = .ok (Ghash.Core.ofKey key) := rfl
  obtain ⟨s, pieces, hs, habsorbed⟩ :=
    Stream.exists_absorbed Ghash.aligned hinit before (by omega)
  obtain ⟨_, _, s', -, hs', -⟩ := habsorbed.update Ghash.aligned
    (show before.flatten.length + chunk.length ≤ Ghash.backend.maxInput by omega)
  exact ⟨s, s', hs, by rw [habsorbed.total]; omega, hs'⟩

/-! ## In place -/

theorem encryptInPlace_eq_error {data left : Bytes} {e : Error} :
    g.encryptInPlace nonce aad data = .error e left ↔
      TooLong data.length aad.length e ∧ left = data := by
  rw [← checkLengths_eq_error]
  cases hcheck : checkLengths data.length aad.length with
  | error e' =>
    unfold encryptInPlace
    rw [hcheck]
    simp [eq_comm]
  | ok _ =>
    obtain ⟨hm, ha⟩ := checkLengths_eq_ok.1 hcheck
    rw [encryptInPlace_eq hm ha]
    simp

theorem exists_tag_eq (j : Block) {ciphertext : Bytes} (hc : ciphertext.length ≤ maxMessage)
    (ha : aad.length ≤ maxAad) :
    ∃ tag : Tag, g.tag j aad ciphertext = .ok tag.toBytes ∧
      tagOf g j aad ciphertext = tag.toBytes := by
  obtain ⟨tag, htag⟩ : ∃ tag : Tag, tag.toBytes = tagOf g j aad ciphertext :=
    FixedBytes.exists_toBytes (length_tagOf g j aad ciphertext)
  exact ⟨tag, by rw [tag_eq j ha hc, htag], htag.symm⟩

theorem decryptInPlace_eq_error {tag : Tag} {data left : Bytes} {e : Error} :
    g.decryptInPlace nonce aad tag data = .error e left ↔
      (TooLong data.length aad.length e ∨
        data.length ≤ maxMessage ∧ aad.length ≤ maxAad ∧ e = .authentication ∧
          ∃ computed : Tag, g.tag (preCounter nonce) aad data = .ok computed.toBytes ∧
            tag ≠ computed) ∧ left = data := by
  rw [← checkLengths_eq_error]
  cases hcheck : checkLengths data.length aad.length with
  | error e' =>
    have hnot : ¬ (data.length ≤ maxMessage ∧ aad.length ≤ maxAad) := by
      rw [← checkLengths_eq_ok, hcheck]
      simp
    unfold decryptInPlace
    rw [hcheck]
    grind
  | ok _ =>
    obtain ⟨hm, ha⟩ := checkLengths_eq_ok.1 hcheck
    obtain ⟨computed, hcomputed, htagOf⟩ := exists_tag_eq (g := g) (preCounter nonce) hm ha
    have hbytes : ∀ other : Tag, computed.toBytes = other.toBytes ↔ computed = other :=
      fun other => FixedBytes.toBytes_injective.eq_iff
    rw [decryptInPlace_eq hm ha, htagOf, hcomputed]
    simp only [hbytes, Except.ok.injEq, exists_eq_left']
    grind

/-! ## With the tag behind the ciphertext -/

theorem decrypt_of_long {bs : Bytes} (h : 16 ≤ bs.length) :
    ∃ tag : Tag, tag.toBytes = bs.drop (bs.length - 16) ∧
      g.decrypt nonce bs aad =
        match (g.decryptInPlace nonce aad tag).run (bs.take (bs.length - 16)) with
        | .ok () plaintext => .ok plaintext
        | .error e _ => .error e := by
  have hlast : (bs.drop (bs.length - 16)).length = tagLen := by
    rw [List.length_drop, tagLen]
    omega
  obtain ⟨tag, htag⟩ := FixedBytes.exists_toBytes hlast
  refine ⟨tag, htag, ?_⟩
  conv_lhs => rw [← List.take_append_drop (bs.length - 16) bs, ← htag]
  exact decrypt_append _ tag

/-- What is long enough to carry a tag fails by its lengths or by its tag. -/
theorem decrypt_isMessage_iff {bs : Bytes} :
    (∃ e, g.decrypt nonce bs aad = .error e ∧ e.IsMessage) ↔ bs.length < 16 := by
  constructor
  · rintro ⟨e, hfails, hmessage⟩
    by_contra hlong
    obtain ⟨tag, -, hdecrypt⟩ := decrypt_of_long (Nat.le_of_not_lt hlong)
    rw [hdecrypt, EStateM.run] at hfails
    cases hplace : g.decryptInPlace nonce aad tag (bs.take (bs.length - 16)) with
    | ok _ plaintext => simp [hplace] at hfails
    | error e' left =>
      simp only [hplace, Except.error.injEq] at hfails
      subst hfails
      rcases (decryptInPlace_eq_error.1 hplace).1 with hlong | ⟨-, -, rfl, -⟩
      · exact hlong.not_isMessage hmessage
      · obtain ⟨text, htext⟩ := hmessage
        cases htext
  · intro hshort
    exact ⟨_, decrypt_of_short hshort, _, rfl⟩

/-- **Failures are exact and damage nothing.** Lengths beyond the limits are
refused; within them the tag of any ciphertext can be computed and encryption
cannot fail, while decryption fails if the tag is another one. A failure leaves
the data as it was, and with the tag behind the ciphertext only its absence is
a failure of another kind. -/
theorem failures_exact (g : Gcm) (nonce : Nonce) (aad data : Bytes) :
    -- encryption
    (∀ e left, g.encryptInPlace nonce aad data = .error e left ↔
      TooLong data.length aad.length e ∧ left = data) ∧
    -- behind the check: lengths in bits, blocks of keystream, and room for every chunk
    (data.length ≤ 2 ^ 36 - 32 → aad.length ≤ 2 ^ 61 - 1 →
      aad.length * 8 < 2 ^ 64 ∧ data.length * 8 < 2 ^ 64 ∧
      blockCount data.length ≤ maxBlocks ∧
      (∃ added, applyKeystream g.cipher (preCounter nonce) data = .ok added ∧
        added.length = data.length) ∧
      ∀ ciphertext : Bytes, ciphertext.length = data.length →
        (∀ before chunk after, authenticated aad ciphertext = before ++ chunk :: after →
          ∃ s s', Stream.create Ghash.backend g.hashKey >>= (·.updateAll before) = .ok s ∧
            s.total + chunk.length ≤ Ghash.backend.maxInput ∧ s.update chunk = .ok s') ∧
        ∃ tag : Tag, g.tag (preCounter nonce) aad ciphertext = .ok tag.toBytes) ∧
    -- decryption
    (∀ (tag : Tag) e left, g.decryptInPlace nonce aad tag data = .error e left ↔
      (TooLong data.length aad.length e ∨
        data.length ≤ 2 ^ 36 - 32 ∧ aad.length ≤ 2 ^ 61 - 1 ∧ e = .authentication ∧
          ∃ computed : Tag, g.tag (preCounter nonce) aad data = .ok computed.toBytes ∧
            tag ≠ computed) ∧ left = data) ∧
    -- the tag behind the ciphertext
    ∀ bs : Bytes,
      (bs.length < 16 → g.decrypt nonce bs aad = .error (.ciphertextLength bs.length 16)) ∧
      (16 ≤ bs.length → ∃ tag : Tag, tag.toBytes = bs.drop (bs.length - 16) ∧
        g.decrypt nonce bs aad =
          match (g.decryptInPlace nonce aad tag).run (bs.take (bs.length - 16)) with
          | .ok () plaintext => .ok plaintext
          | .error e _ => .error e) ∧
      ((∃ e, g.decrypt nonce bs aad = .error e ∧ e.IsMessage) ↔ bs.length < 16) := by
  refine ⟨fun e left => encryptInPlace_eq_error, fun hm ha => ?_,
    fun tag e left => decryptInPlace_eq_error,
    fun bs => ⟨decrypt_of_short, decrypt_of_long, decrypt_isMessage_iff⟩⟩
  refine ⟨by omega, by omega, blockCount_le hm,
    ⟨_, applyKeystream_eq (preCounter nonce) hm, length_masked _ _ _⟩, fun ciphertext hlen => ?_⟩
  have hc : ciphertext.length ≤ maxMessage := hlen.trans_le hm
  obtain ⟨tag, htag, -⟩ := exists_tag_eq (g := g) (preCounter nonce) hc ha
  exact ⟨fun before chunk after h => update_authenticated g.hashKey hc ha h, tag, htag⟩

/-- With the identity as the block cipher every tag is the block that masks it. -/
theorem failures_exact_of_identity :
    (⟨id⟩ : Gcm).decryptInPlace (FixedBytes.zero 12) [1, 2] (FixedBytes.zero 16) [3, 4, 5] =
      .error .authentication [3, 4, 5] ∧
    (⟨id⟩ : Gcm).decrypt (FixedBytes.zero 12) (Bytes.zeros 15) [1, 2] =
      .error (.ciphertextLength 15 16) := by
  obtain ⟨-, -, hdecrypt, hbehind⟩ := failures_exact ⟨id⟩ (FixedBytes.zero 12) [1, 2] [3, 4, 5]
  have hmask : tagOf ⟨id⟩ (preCounter (FixedBytes.zero 12)) [1, 2] [3, 4, 5] =
      (preCounter (FixedBytes.zero 12)).toBytes := by decide +kernel
  have hbytes : (FixedBytes.zero 16).toBytes ≠ (preCounter (FixedBytes.zero 12)).toBytes := by
    decide +kernel
  refine ⟨(hdecrypt _ _ _).2 ⟨.inr ⟨by decide, by decide, rfl, preCounter (FixedBytes.zero 12),
    ?_, fun h => hbytes (congrArg _ h)⟩, rfl⟩, (hbehind (Bytes.zeros 15)).1 (by decide)⟩
  exact (tag_eq _ (by decide) (by decide)).trans (congrArg Except.ok hmask)

end Gcm

end StreamDigest
