import StreamDigest.Proofs.Gcm.Encryption
import StreamDigest.Proofs.Ghash.Distinct

/-!
# Changes that are always detected

The hash takes in the elements of the associated data, those of the ciphertext
and the block of lengths (`elements_authenticated`); the padding between them
adds nothing to the elements. A change within one block of either keeps the
lengths and changes one element, so it changes the tag (`tagOf_ne`) unless the
hash key is zero, and the old tag is refused.
-/

namespace StreamDigest.Gcm

open Bytes (ChangedIn)

variable {g : Gcm} {nonce : Nonce} {aad aad' bs bs' : Bytes}

theorem elements_padded (m : Bytes) :
    Ghash.elements (Standard.padded m) = Ghash.elements m := by
  rw [Standard.padded_eq]
  by_cases h0 : m = []
  · subst h0
    rfl
  have hpos := List.length_pos_of_ne_nil h0
  -- the padding is that of the last piece, so whole pieces can be taken off first
  by_cases hle : m.length ≤ 16
  · have hpad : m ++ padding m.length = Bytes.padTo 16 m := by
      rw [padding, Bytes.padTo, blockLen]
      congr 2
      omega
    have hlen := Bytes.length_padTo hle
    rw [hpad, Ghash.elements_of_le (List.ne_nil_of_length_pos (by omega)) hlen.le,
      Bytes.padTo_of_length hlen.ge, Ghash.elements_of_le h0 hle]
  · have hrest : padding m.length = padding (m.drop 16).length := by
      rw [List.length_drop, padding, padding, blockLen]
      congr 1
      omega
    rw [Ghash.elements_cons (by simp [h0]), Ghash.elements_cons h0,
      List.take_append_of_le_length (by omega), List.drop_append_of_le_length (by omega), hrest,
      ← Standard.padded_eq, elements_padded]
termination_by m.length
decreasing_by
  rw [List.length_drop]
  omega

theorem elements_authenticated (aad ciphertext : Bytes) :
    Ghash.elements (authenticated aad ciphertext).flatten =
      Ghash.elements aad ++ (Ghash.elements ciphertext ++
        Ghash.elements (lengthBlock aad.length ciphertext.length)) := by
  have hflat : (authenticated aad ciphertext).flatten = Standard.padded aad ++
      (Standard.padded ciphertext ++ lengthBlock aad.length ciphertext.length) := by
    simp [authenticated, Standard.padded_eq]
  rw [hflat, Ghash.elements_append _ _ (Standard.dvd_length_padded aad),
    Ghash.elements_append _ _ (Standard.dvd_length_padded ciphertext), elements_padded,
    elements_padded]

theorem elementOf_hashKey_ne (hkey : g.hashKey ≠ FixedBytes.zero 16) :
    Ghash.elementOf g.hashKey.toBytes ≠ 0 := by
  intro h
  apply hkey
  apply FixedBytes.toBytes_injective
  refine Ghash.elementOf_inj (length_block _) (length_block _) (h.trans ?_)
  decide

/-- One element that is another gives another tag. -/
theorem tagOf_ne (hkey : g.hashKey ≠ FixedBytes.zero 16) (j : Block) {ciphertext ciphertext' : Bytes}
    {front back : List Ghash.Element} {x x' : Ghash.Element}
    (h : Ghash.elements (authenticated aad ciphertext).flatten = front ++ x :: back)
    (h' : Ghash.elements (authenticated aad' ciphertext').flatten = front ++ x' :: back)
    (hx : x' ≠ x) : tagOf g j aad' ciphertext' ≠ tagOf g j aad ciphertext := by
  intro heq
  have hdigest : ∀ m, (Ghash.digest g.hashKey m).length ≤ (g.cipher j).toBytes.length := fun m => by
    rw [Ghash.digest, Ghash.length_blockOf, length_block]
  have hunmask := congrArg (Bytes.xor · (g.cipher j).toBytes) heq
  simp only [tagOf, Bytes.xor_xor_cancel (hdigest _)] at hunmask
  have helement := congrArg Ghash.elementOf hunmask
  rw [Ghash.digest, Ghash.digest, Ghash.elementOf_blockOf, Ghash.elementOf_blockOf, h, h'] at helement
  exact Ghash.accumulate_ne (elementOf_hashKey_ne hkey) 0 front back hx helement

theorem tagOf_ne_of_aad (hkey : g.hashKey ≠ FixedBytes.zero 16) (j : Block) (ciphertext : Bytes)
    {k : Nat} (h : ChangedIn (16 * k) (16 * k + 16) aad aad') :
    tagOf g j aad' ciphertext ≠ tagOf g j aad ciphertext := by
  obtain ⟨front, x, x', back, has, hbs, hx⟩ := h.elements
  have hold : Ghash.elements (authenticated aad ciphertext).flatten =
      front ++ x :: (back ++ (Ghash.elements ciphertext ++
        Ghash.elements (lengthBlock aad.length ciphertext.length))) := by
    rw [elements_authenticated, has, List.append_assoc, List.cons_append]
  have hnew : Ghash.elements (authenticated aad' ciphertext).flatten =
      front ++ x' :: (back ++ (Ghash.elements ciphertext ++
        Ghash.elements (lengthBlock aad.length ciphertext.length))) := by
    rw [elements_authenticated, hbs, h.length_eq, List.append_assoc, List.cons_append]
  exact tagOf_ne hkey j hold hnew hx

theorem tagOf_ne_of_body (hkey : g.hashKey ≠ FixedBytes.zero 16) (j : Block) (aad : Bytes)
    {ciphertext ciphertext' : Bytes} {k : Nat}
    (h : ChangedIn (16 * k) (16 * k + 16) ciphertext ciphertext') :
    tagOf g j aad ciphertext' ≠ tagOf g j aad ciphertext := by
  obtain ⟨front, x, x', back, has, hbs, hx⟩ := h.elements
  have hold : Ghash.elements (authenticated aad ciphertext).flatten =
      (Ghash.elements aad ++ front) ++ x :: (back ++
        Ghash.elements (lengthBlock aad.length ciphertext.length)) := by
    simp [elements_authenticated, has]
  have hnew : Ghash.elements (authenticated aad ciphertext').flatten =
      (Ghash.elements aad ++ front) ++ x' :: (back ++
        Ghash.elements (lengthBlock aad.length ciphertext.length)) := by
    simp [elements_authenticated, hbs, h.length_eq]
  exact tagOf_ne hkey j hold hnew hx

/-! ## Decryption of what was changed -/

/-- A ciphertext with its tag and the associated data, changed within one block
of either or within the tag. The last block may be short. -/
inductive Tampered (bs aad : Bytes) : Bytes → Bytes → Prop where
  | body {bs' : Bytes} (k : Nat)
      (h : ChangedIn (16 * k) (min (16 * k + 16) (bs.length - 16)) bs bs') : Tampered bs aad bs' aad
  | aad {aad' : Bytes} (k : Nat) (h : ChangedIn (16 * k) (16 * k + 16) aad aad') :
      Tampered bs aad bs aad'
  | tag {bs' : Bytes} (h : ChangedIn (bs.length - 16) bs.length bs bs') : Tampered bs aad bs' aad

theorem decrypt_refused {body : Bytes} {tag : Bytes} (hm : body.length ≤ maxMessage)
    (ha : aad.length ≤ maxAad) (ht : tag.length = 16)
    (h : tagOf g (preCounter nonce) aad body ≠ tag) :
    g.decrypt nonce (body ++ tag) aad = .error .authentication := by
  obtain ⟨tag, rfl⟩ : ∃ t : Tag, t.toBytes = tag := FixedBytes.exists_toBytes ht
  rw [decrypt_append_eq hm ha, if_neg h]

theorem Tampered.decrypt (hkey : g.hashKey ≠ FixedBytes.zero 16) {plaintext : Bytes}
    (hencrypt : g.encrypt nonce plaintext aad = .ok bs) (h : Tampered bs aad bs' aad') :
    g.decrypt nonce bs' aad' = .error .authentication := by
  obtain ⟨tag, ciphertext, hplace, rfl⟩ := encrypt_eq_ok.1 hencrypt
  obtain ⟨hm, ha, rfl, rfl⟩ := encryptInPlace_eq_ok.1 hplace
  have hlen : ∀ aad ciphertext, (tagOf g (preCounter nonce) aad ciphertext).length = 16 :=
    length_tagOf g (preCounter nonce)
  rw [← length_masked g.cipher (preCounter nonce)] at hm
  -- any ciphertext will do from here on, with the tag that belongs to it
  generalize masked g.cipher (preCounter nonce) plaintext = ciphertext at *
  cases h with
  | body k h =>
    rw [List.length_append, hlen, Nat.add_sub_cancel] at h
    obtain ⟨ciphertext', rfl, hbody⟩ := h.of_append (min_le_right _ _)
    have hne := tagOf_ne_of_body hkey (preCounter nonce) aad (hbody.mono le_rfl (min_le_left _ _))
    exact decrypt_refused (hbody.length_eq.trans_le hm) ha (hlen _ _) hne
  | aad k h =>
    have hne := tagOf_ne_of_aad hkey (preCounter nonce) ciphertext h
    exact decrypt_refused hm (h.length_eq.trans_le ha) (hlen _ _) hne
  | tag h =>
    rw [List.length_append, hlen, Nat.add_sub_cancel] at h
    obtain ⟨tag', rfl, htag, hne⟩ := h.of_append_right
    exact decrypt_refused hm ha (htag.trans (hlen _ _)) hne.symm

theorem tampered_flipBit {i : Nat} (hi : i < 8 * bs.length) :
    Tampered bs aad (Bytes.flipBit bs i) aad := by
  have h := Bytes.changedIn_flipBit hi
  by_cases hbody : i / 8 < bs.length - 16
  · exact .body (i / 8 / 16) (h.mono (by omega) (by omega))
  · exact .tag (h.mono (by omega) (by omega))

theorem tampered_flipBit_aad {i : Nat} (hi : i < 8 * aad.length) :
    Tampered bs aad bs (Bytes.flipBit aad i) :=
  .aad (i / 8 / 16) ((Bytes.changedIn_flipBit hi).mono (by omega) (by omega))

/-- **A change within one block is detected**, and so is every flipped bit, under
every key but those with hash key zero. -/
theorem decrypt_tampered {g : Gcm} (hkey : g.hashKey ≠ FixedBytes.zero 16) (nonce : Nonce)
    {plaintext aad : Bytes} (hm : plaintext.length ≤ 2 ^ 36 - 32) (ha : aad.length ≤ 2 ^ 61 - 1) :
    ∃ bs, g.encrypt nonce plaintext aad = .ok bs ∧
      (∀ bs' aad', Tampered bs aad bs' aad' →
        g.decrypt nonce bs' aad' = .error .authentication) ∧
      (∀ i < 8 * bs.length, g.decrypt nonce (Bytes.flipBit bs i) aad = .error .authentication) ∧
      ∀ i < 8 * aad.length,
        g.decrypt nonce bs (Bytes.flipBit aad i) = .error .authentication := by
  obtain ⟨bs, hencrypt⟩ : ∃ bs, g.encrypt nonce plaintext aad = .ok bs := ⟨_, encrypt_eq hm ha⟩
  have hall : ∀ bs' aad', Tampered bs aad bs' aad' →
      g.decrypt nonce bs' aad' = .error .authentication :=
    fun _ _ h => h.decrypt hkey hencrypt
  exact ⟨bs, hencrypt, hall, fun i hi => hall _ _ (tampered_flipBit hi),
    fun i hi => hall _ _ (tampered_flipBit_aad hi)⟩

/-- With the complement as the block cipher, a bit of short associated data. -/
theorem decrypt_tampered_of_complement :
    (⟨Vector.map (255 - ·)⟩ : Gcm).hashKey ≠ FixedBytes.zero 16 ∧
    ∃ bs, (⟨Vector.map (255 - ·)⟩ : Gcm).encrypt (FixedBytes.zero 12) (Bytes.zeros 20) [1, 2, 3] =
        .ok bs ∧
      (⟨Vector.map (255 - ·)⟩ : Gcm).decrypt (FixedBytes.zero 12) bs [1, 2, 7] =
        .error .authentication := by
  have hbytes : (⟨Vector.map (255 - ·)⟩ : Gcm).hashKey.toBytes ≠ Bytes.zeros 16 := by
    decide +kernel
  have hkey : (⟨Vector.map (255 - ·)⟩ : Gcm).hashKey ≠ FixedBytes.zero 16 :=
    fun h => hbytes (congrArg FixedBytes.toBytes h)
  obtain ⟨bs, hencrypt, -, -, haad⟩ := decrypt_tampered hkey (FixedBytes.zero 12)
    (show (Bytes.zeros 20).length ≤ 2 ^ 36 - 32 by decide)
    (show ([1, 2, 3] : Bytes).length ≤ 2 ^ 61 - 1 by decide)
  exact ⟨hkey, bs, hencrypt, haad 21 (by decide)⟩

end StreamDigest.Gcm
