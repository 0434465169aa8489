import StreamDigest.Proofs.Gcm.Encryption

/-!
# What a key is used for

Under a key the block cipher is asked for the zero block, and for each message
for the block that masks its tag and for one block of keystream for every
sixteen bytes (`Use`); no other block matters (`encryptInPlace_congr`,
`decryptInPlace_congr`). All these blocks are a nonce with a number behind it,
the zero block too, and the number is that of the use: 0, 1, and from 2 on in
order. Within the limit on a message it stays below `2 ^ 32`, so that the block
tells the use (`Use.input_inj`).
-/

namespace StreamDigest.Gcm

/-- What the block cipher under a key is asked for. -/
inductive Use where
  /-- The key of the tag's hash. -/
  | hashKey
  /-- The mask of a tag. -/
  | tagMask (nonce : Nonce)
  /-- Block `i` of the keystream. -/
  | keystream (nonce : Nonce) (i : Nat)

namespace Use

/-- The block that is encrypted. -/
def input : Use → Block
  | hashKey => FixedBytes.zero 16
  | tagMask nonce => preCounter nonce
  | keystream nonce i => incrementBy (i + 1) (preCounter nonce)

/-- The first twelve bytes of the block. -/
def nonce : Use → Nonce
  | hashKey => FixedBytes.zero 12
  | tagMask nonce => nonce
  | keystream nonce _ => nonce

/-- The number behind them. -/
def number : Use → Nat
  | hashKey => 0
  | tagMask _ => 1
  | keystream _ i => i + 2

theorem toBytes_input (u : Use) : u.input.toBytes = u.nonce.toBytes ++ Bytes.toBE 4 u.number := by
  cases u with
  | hashKey => decide +kernel
  | tagMask nonce => exact Standard.toBytes_counterBlock nonce 1
  | keystream nonce i =>
    have hj : (preCounter nonce).toBytes = nonce.toBytes ++ Bytes.toBE 4 1 :=
      Standard.toBytes_counterBlock nonce 1
    have hlen := length_nonce nonce
    change (incrementBy (i + 1) (preCounter nonce)).toBytes = nonce.toBytes ++ Bytes.toBE 4 (i + 2)
    rw [Standard.toBytes_incrementBy, hj, List.take_left' hlen, List.drop_left' hlen,
      Bytes.ofBE_toBE]
    congr 2
    omega

/-- As long as the number is not reduced, the block tells the use. -/
theorem input_inj {u u' : Use} (hu : u.number < 2 ^ 32) (hu' : u'.number < 2 ^ 32)
    (h : u.input = u'.input) : u = u' := by
  have hbytes := congrArg FixedBytes.toBytes h
  rw [toBytes_input, toBytes_input] at hbytes
  obtain ⟨hnonce, hnumber⟩ := List.append_inj hbytes (by simp)
  have hnonce := FixedBytes.toBytes_injective hnonce
  have hnumber : u.number = u'.number := by
    have := congrArg Bytes.ofBE hnumber
    rw [Bytes.ofBE_toBE, Bytes.ofBE_toBE] at this
    omega
  cases u <;> cases u' <;> simp_all [number, Use.nonce]

end Use

variable {g g' : Gcm} {E E' : BlockCipher} {nonce : Nonce}

/-- The uses of the cipher in encrypting or decrypting `len` bytes. -/
def usesOf (nonce : Nonce) (len : Nat) : List Use :=
  .hashKey :: .tagMask nonce :: (List.range (blockCount len)).map (.keystream nonce)

theorem nodup_usesOf (nonce : Nonce) (len : Nat) : (usesOf nonce len).Nodup := by
  simp [usesOf, List.nodup_map_iff_inj_on, List.nodup_range]

/-- Within the limit the number does not come round. -/
theorem number_lt {len : Nat} (h : len ≤ maxMessage) {u : Use} (hu : u ∈ usesOf nonce len) :
    u.number < 2 ^ 32 := by
  have hcount := blockCount_le h
  unfold maxBlocks at hcount
  simp only [usesOf, List.mem_cons, List.mem_map, List.mem_range] at hu
  rcases hu with rfl | rfl | ⟨i, hi, rfl⟩
  · exact Nat.two_pow_pos 32
  · exact Nat.one_lt_two_pow (by decide)
  · change i + 2 < 2 ^ 32
    omega

/-! ## Nothing else of the cipher matters -/

theorem keystream_congr {j : Block} {n : Nat}
    (h : ∀ i < n, E (incrementBy (i + 1) j) = E' (incrementBy (i + 1) j)) :
    keystream E j n = keystream E' j n := by
  unfold keystream
  exact List.flatMap_congr fun i hi => congrArg _ (h i (List.mem_range.1 hi))

section
variable {data : Bytes} (h : ∀ u ∈ usesOf nonce data.length, g.cipher u.input = g'.cipher u.input)
include h

theorem masked_congr :
    masked g.cipher (preCounter nonce) data = masked g'.cipher (preCounter nonce) data := by
  unfold masked
  rw [keystream_congr fun i hi => h (.keystream nonce i) (by simp [usesOf, hi])]

theorem tagOf_congr (aad ciphertext : Bytes) :
    tagOf g (preCounter nonce) aad ciphertext = tagOf g' (preCounter nonce) aad ciphertext := by
  have hkey : g.hashKey = g'.hashKey := h .hashKey List.mem_cons_self
  have hmask : g.cipher (preCounter nonce) = g'.cipher (preCounter nonce) :=
    h (.tagMask nonce) (List.mem_cons_of_mem _ List.mem_cons_self)
  rw [tagOf, tagOf, hkey, hmask]

theorem encryptInPlace_congr (aad : Bytes) :
    g.encryptInPlace nonce aad data = g'.encryptInPlace nonce aad data := by
  cases hcheck : checkLengths data.length aad.length with
  | error e =>
    unfold encryptInPlace
    rw [hcheck]
  | ok _ =>
    obtain ⟨hm, ha⟩ := checkLengths_eq_ok.1 hcheck
    rw [encryptInPlace_eq hm ha, encryptInPlace_eq hm ha, masked_congr h, tagOf_congr h]

theorem decryptInPlace_congr (aad : Bytes) (tag : Tag) :
    g.decryptInPlace nonce aad tag data = g'.decryptInPlace nonce aad tag data := by
  cases hcheck : checkLengths data.length aad.length with
  | error e =>
    unfold decryptInPlace
    rw [hcheck]
  | ok _ =>
    obtain ⟨hm, ha⟩ := checkLengths_eq_ok.1 hcheck
    rw [decryptInPlace_eq hm ha, decryptInPlace_eq hm ha, masked_congr h, tagOf_congr h]

end

/-! ## Bytes of keystream -/

theorem keystream_succ (E : BlockCipher) (j : Block) (n : Nat) :
    keystream E j (n + 1) = keystream E j n ++ (E (incrementBy (n + 1) j)).toBytes := by
  simp [keystream, List.range_succ]

theorem getElem?_keystream (E : BlockCipher) (j : Block) {n k : Nat} (h : k < 16 * n) :
    (keystream E j n)[k]? = (E (incrementBy (k / 16 + 1) j)).toBytes[k % 16]? := by
  have hlen := length_keystream E j
  induction n with
  | zero => omega
  | succ n ih =>
    rw [keystream_succ]
    by_cases hk : k < 16 * n
    · rw [List.getElem?_append_left (by rw [hlen]; exact hk), ih hk]
    · have hdiv : k / 16 = n := by omega
      have hmod : k - 16 * n = k % 16 := by omega
      rw [List.getElem?_append_right (by rw [hlen]; omega), hlen, hdiv, hmod]

/-- Byte `k` of the keystream is byte `k % 16` of the encryption of the nonce with
the number `2 + k / 16` behind it. -/
theorem exists_keystream_byte (E : BlockCipher) (nonce : Nonce) {len k : Nat} (h : k < len) :
    ∃ block : Block, ∃ byte, block.toBytes = nonce.toBytes ++ Bytes.toBE 4 (2 + k / 16) ∧
      (E block).toBytes[k % 16]? = some byte ∧
      (keystream E (preCounter nonce) (blockCount len))[k]? = some byte := by
  have hcount : k < 16 * blockCount len := by
    rw [← length_keystream E (preCounter nonce)]
    exact h.trans_le (le_length_keystream E (preCounter nonce) len)
  have hbytes := Use.toBytes_input (.keystream nonce (k / 16))
  have hmod : k % 16 < (E (Use.keystream nonce (k / 16)).input).toBytes.length := by
    rw [length_block]
    exact Nat.mod_lt k (by decide)
  refine ⟨(Use.keystream nonce (k / 16)).input, _, ?_, List.getElem?_eq_getElem hmod, ?_⟩
  · rw [hbytes, Nat.add_comm 2]
    rfl
  · rw [getElem?_keystream E _ hcount]
    exact List.getElem?_eq_getElem hmod

/-- **No block is encrypted for two purposes.** Over any calls under one key,
with any nonces, different uses ask for different blocks. Within a call no block
comes twice, the numbers behind the nonce are those from 2 on and do not come
round, no other block matters, and every byte of data is added to the byte of
keystream at its place. -/
theorem inputs_distinct :
    (∀ calls : Set (Nonce × Nat), (∀ c ∈ calls, c.2 ≤ 2 ^ 36 - 32) →
      Set.InjOn Use.input {u | ∃ c ∈ calls, u ∈ usesOf c.1 c.2}) ∧
    ∀ (nonce : Nonce) (data : Bytes), data.length ≤ 2 ^ 36 - 32 →
      ((usesOf nonce data.length).map Use.input).Nodup ∧
      (∀ i < blockCount data.length, i + 2 < 2 ^ 32 ∧
        (Use.keystream nonce i).input.toBytes = nonce.toBytes ++ Bytes.toBE 4 (i + 2)) ∧
      (∀ g g' : Gcm, (∀ u ∈ usesOf nonce data.length, g.cipher u.input = g'.cipher u.input) →
        ∀ aad, g.encryptInPlace nonce aad data = g'.encryptInPlace nonce aad data ∧
          ∀ tag, g.decryptInPlace nonce aad tag data = g'.decryptInPlace nonce aad tag data) ∧
      ∀ E : BlockCipher, ∃ out, applyKeystream E (preCounter nonce) data = .ok out ∧
        out.length = data.length ∧
        ∀ j (hj : j < data.length), ∃ block : Block, ∃ byte,
          block.toBytes = nonce.toBytes ++ Bytes.toBE 4 (2 + j / 16) ∧
          (E block).toBytes[j % 16]? = some byte ∧
          (keystream E (preCounter nonce) (blockCount data.length))[j]? = some byte ∧
          out[j]? = some (data[j] ^^^ byte) := by
  have hinj : ∀ {nonce nonce' : Nonce} {len len' : Nat} {u u' : Use}, len ≤ maxMessage →
      len' ≤ maxMessage → u ∈ usesOf nonce len → u' ∈ usesOf nonce' len' → u.input = u'.input →
        u = u' :=
    fun hlen hlen' hu hu' => Use.input_inj (number_lt hlen hu) (number_lt hlen' hu')
  refine ⟨?_, fun nonce data hm => ⟨?_, fun i hi => ?_, fun g g' h aad => ?_, fun E => ?_⟩⟩
  · rintro calls hlimit u ⟨c, hc, hu⟩ u' ⟨c', hc', hu'⟩
    exact hinj (hlimit c hc) (hlimit c' hc') hu hu'
  · exact (nodup_usesOf nonce data.length).map_on fun u hu u' hu' => hinj hm hm hu hu'
  · have hmem : Use.keystream nonce i ∈ usesOf nonce data.length := by simp [usesOf, hi]
    exact ⟨number_lt hm hmem, Use.toBytes_input _⟩
  · exact ⟨encryptInPlace_congr h aad, decryptInPlace_congr h aad⟩
  · refine ⟨_, applyKeystream_eq _ hm, length_masked _ _ _, fun j hj => ?_⟩
    obtain ⟨block, byte, hblock, hbyte, hstream⟩ := exists_keystream_byte E nonce hj
    refine ⟨block, byte, hblock, hbyte, hstream, ?_⟩
    simp only [masked, Bytes.xor, List.getElem?_zipWith, List.getElem?_eq_getElem hj, hstream]

/-- A message of the full length, whose last block has the last number, and a
short one under another nonce. -/
theorem inputs_distinct_of_longest :
    Set.InjOn Use.input {u | ∃ c ∈ ({(FixedBytes.zero 12, 2 ^ 36 - 32),
      (Vector.replicate 12 1, 40)} : Set (Nonce × Nat)), u ∈ usesOf c.1 c.2} ∧
    2 ^ 32 - 3 < blockCount (2 ^ 36 - 32) ∧
    (Use.keystream (FixedBytes.zero 12) 2).input.toBytes = Bytes.zeros 12 ++ [0, 0, 0, 4] := by
  obtain ⟨hinj, hcall⟩ := inputs_distinct
  refine ⟨hinj _ ?_, by decide, ?_⟩
  · rintro c (rfl | rfl) <;> decide
  · have hlen : (Bytes.zeros 40).length = 40 := Bytes.length_zeros 40
    obtain ⟨-, hnumbers, -⟩ := hcall (FixedBytes.zero 12) (Bytes.zeros 40) (by rw [hlen]; decide)
    exact (hnumbers 2 (by rw [hlen]; decide)).2

end StreamDigest.Gcm
