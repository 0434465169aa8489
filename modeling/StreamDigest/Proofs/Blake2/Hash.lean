import StreamDigest.Proofs.Blake2.Compression
import StreamDigest.Proofs.Blake2.Schedule

/-!
# BLAKE2 streams compute the standard's hash

The library takes a key block in when it is known what follows it and adds
offsets to the counts of a stream; the standard numbers the blocks of one list.
`inputs_start` says that both feed the same inputs to the compression function,
so the state after a message is the standard's (`entries_absorb`), and with it
the digest, block by block (`reference_eq`) and of every stream.
-/

namespace StreamDigest.Blake2

variable {v : Variant} {p : Params}

theorem blockLen_eq (v : Variant) : v.blockLen = Standard.blockBytes v := by cases v <;> rfl

theorem maxLen_eq (v : Variant) : v.maxLen = Standard.maxBytes v := by cases v <;> rfl

theorem fieldLen_eq (v : Variant) : v.fieldLen = Standard.maxBytes v / 4 := by cases v <;> rfl

/-! ## Parameters -/

/-- The check accepts exactly the parameters that the standard allows. -/
theorem check_eq_ok : p.check v = .ok () ↔ Standard.Admissible v p := by
  have hmax := maxLen_eq v
  have hfield := fieldLen_eq v
  unfold Params.check
  constructor
  · intro h
    split_ifs at h with hdigest hkey hsalt hpersonal
    refine ⟨by omega, by omega, by omega, ?_, ?_⟩
    · by_cases h0 : p.salt = []
      · exact Or.inl h0
      · exact Or.inr (by_contra fun hne => hsalt ⟨h0, by omega⟩)
    · by_cases h0 : p.personal = []
      · exact Or.inl h0
      · exact Or.inr (by_contra fun hne => hpersonal ⟨h0, by omega⟩)
  · rintro ⟨hpos, hdigest, hkey, hsalt, hpersonal⟩
    rw [if_neg (by omega), if_neg (by omega), if_neg, if_neg]
    · rintro ⟨h0, hne⟩
      rcases hpersonal with h | h
      · exact h0 h
      · omega
    · rintro ⟨h0, hne⟩
      rcases hsalt with h | h
      · exact h0 h
      · omega

theorem padTo_field {bs : Bytes} (h : bs = [] ∨ bs.length = Standard.maxBytes v / 4) :
    Bytes.padTo v.fieldLen bs = Standard.field v bs := by
  rw [fieldLen_eq, Standard.field]
  rcases h with rfl | h
  · rfl
  · rw [Bytes.padTo_of_length h.ge, if_neg]
    rintro rfl
    cases v <;> cases h

theorem block_eq (h : Standard.Admissible v p) : p.block v = Standard.parameterBlock v p := by
  have hhalf : 4 * v.wordLen = Standard.maxBytes v / 2 := by cases v <;> rfl
  rw [Params.block, padTo_field h.salt, padTo_field h.personal, Bytes.padTo, hhalf]
  rfl

namespace Core

/-- The state that parameters give, before any input. -/
def start (v : Variant) (p : Params) : Core v where
  work := Vector.replicate 16 0
  chain := v.iv.zipWith (· ^^^ ·) (wordsOf v 8 (p.block v))
  digestLen := p.digestLen
  keyed := (p.keyBlock v).isSome
  pendingKey := p.keyBlock v

theorem ofParams_eq (h : Standard.Admissible v p) : ofParams v p = .ok (start v p) := by
  rw [ofParams, check_eq_ok.2 h]
  rfl

theorem admissible_of_ofParams {c : Core v} (h : ofParams v p = .ok c) :
    Standard.Admissible v p := by
  cases hc : p.check v with
  | error e => rw [ofParams, hc] at h; cases h
  | ok u => exact check_eq_ok.1 hc

theorem entries_start (h : Standard.Admissible v p) :
    entries (start v p).chain = Standard.startState v p := by
  funext i
  rw [Standard.startState, ← block_eq h, ← entries_iv, ← entries_wordsOf]
  exact Vector.getElem_zipWith i.isLt

theorem entries_absorb (c : Core v) (xs : List Input) :
    entries (c.absorb xs).chain = xs.foldl (fun h x =>
      Standard.compression v h (Standard.words v 16 x.block) x.counter x.last)
        (entries c.chain) := by
  rw [chain_absorb]
  exact (List.foldl_hom entries fun h x => (entries_compress h x).symm).symm

end Core

/-! ## Numbered blocks -/

/-- Blocks as inputs: all but the last count the bytes up to their end, on top of
`base`; the last counts `total`. -/
def numbered (v : Variant) (base total : Nat) (blocks : List Bytes) : List Input :=
  blocks.mapIdx fun i block =>
    if i + 1 = blocks.length then ⟨block, total, true⟩
    else ⟨block, base + (i + 1) * v.blockLen, false⟩

theorem numbered_single (base total : Nat) (block : Bytes) :
    numbered v base total [block] = [⟨block, total, true⟩] := rfl

theorem numbered_cons (base total : Nat) (block : Bytes) {blocks : List Bytes} (h : blocks ≠ []) :
    numbered v base total (block :: blocks) =
      ⟨block, base + v.blockLen, false⟩ :: numbered v (base + v.blockLen) total blocks := by
  have hpos := List.length_pos_of_ne_nil h
  have hshift : ∀ i, base + (i + 1 + 1) * v.blockLen =
      base + v.blockLen + (i + 1) * v.blockLen := by
    intro i
    ring
  rw [numbered, List.mapIdx_cons, numbered, List.length_cons, if_neg (by omega)]
  simp only [Nat.add_right_cancel_iff, hshift, Nat.zero_add, Nat.one_mul]

/-- The padded blocks of a message that is the end of the data. -/
def messageBlocks (v : Variant) (m : Bytes) : List Bytes :=
  if m = [] then [Bytes.zeros v.blockLen]
  else (Bytes.segments v.blockLen m).map (Bytes.padTo v.blockLen)

theorem messageBlocks_of_le {m : Bytes} (h : m.length ≤ v.blockLen) :
    messageBlocks v m = [Bytes.padTo v.blockLen m] := by
  unfold messageBlocks
  split_ifs with h0
  · rw [h0]
    rfl
  · rw [Bytes.segments_single (blockLen_pos v) h0 h]
    rfl

theorem messageBlocks_of_lt {m : Bytes} (h : v.blockLen < m.length) :
    messageBlocks v m = m.take v.blockLen :: messageBlocks v (m.drop v.blockLen) := by
  have hm : m ≠ [] := by
    rintro rfl
    exact Nat.not_lt_zero _ h
  have hdrop : m.drop v.blockLen ≠ [] := by
    rw [Ne, List.drop_eq_nil_iff]
    omega
  have htake : Bytes.padTo v.blockLen (m.take v.blockLen) = m.take v.blockLen := by
    apply Bytes.padTo_of_length
    rw [List.length_take]
    omega
  rw [messageBlocks, if_neg hm, Bytes.segments_cons (blockLen_pos v) hm, List.map_cons, htake,
    messageBlocks, if_neg hdrop]

theorem messageBlocks_ne_nil (m : Bytes) : messageBlocks v m ≠ [] := by
  by_cases h : v.blockLen < m.length
  · rw [messageBlocks_of_lt h]
    exact List.cons_ne_nil _ _
  · rw [messageBlocks_of_le (Nat.not_lt.1 h)]
    exact List.cons_ne_nil _ _

theorem messageInputs_eq (base : Nat) (m : Bytes) :
    messageInputs v base m = numbered v base (base + m.length) (messageBlocks v m) := by
  fun_induction messageInputs v base m with
  | case1 base m h ih =>
    have hlen : base + v.blockLen + (m.drop v.blockLen).length = base + m.length := by
      rw [List.length_drop]
      omega
    rw [ih, messageBlocks_of_lt h, numbered_cons _ _ _ (messageBlocks_ne_nil _), hlen]
  | case2 base m h =>
    rw [messageBlocks_of_le (Nat.not_lt.1 h), numbered_single]

theorem standard_inputs_eq (key m : Bytes) :
    Standard.inputs v key m =
      numbered v 0 (Standard.totalBytes v key m) (Standard.dataBlocks v key m) := by
  simp only [Standard.inputs, numbered, blockLen_eq, Nat.zero_add]

theorem dataBlocks_unkeyed (m : Bytes) : Standard.dataBlocks v [] m = messageBlocks v m := by
  unfold Standard.dataBlocks messageBlocks
  rw [← blockLen_eq, if_pos rfl, List.nil_append]
  by_cases hm : m = []
  · rw [hm, Bytes.segments_nil, if_pos rfl, if_pos rfl]
  · have hne : Bytes.segments v.blockLen m ≠ [] := by
      rw [Bytes.segments_cons (blockLen_pos v) hm]
      exact List.cons_ne_nil _ _
    rw [if_neg hne, if_neg hm]

/-- The key block of a keyed hash is the only block if there is no message. -/
theorem dataBlocks_keyed {key : Bytes} (h : key ≠ []) (m : Bytes) :
    Standard.dataBlocks v key m =
      Bytes.padTo v.blockLen key :: if m = [] then [] else messageBlocks v m := by
  unfold Standard.dataBlocks messageBlocks
  rw [← blockLen_eq, if_neg h, if_neg (by simp), List.map_append]
  by_cases hm : m = []
  · rw [hm, Bytes.segments_nil, if_pos rfl]
    rfl
  · rw [if_neg hm, if_neg hm]
    rfl

namespace Core

theorem start_unkeyed (h : p.key = []) :
    (start v p).pendingKey = none ∧ (start v p).counterOffset = 0 := by
  have hblock : p.keyBlock v = none := if_pos h
  refine ⟨hblock, ?_⟩
  rw [counterOffset, start, hblock]
  rfl

theorem start_keyed (h : p.key ≠ []) :
    (start v p).pendingKey = some (Bytes.padTo v.blockLen p.key) ∧
      (start v p).counterOffset = v.blockLen := by
  have hblock : p.keyBlock v = some (Bytes.padTo v.blockLen p.key) := if_neg h
  refine ⟨hblock, ?_⟩
  rw [counterOffset, start, hblock]
  rfl

theorem inputs_unkeyed (h : p.key = []) (m : Bytes) :
    (start v p).inputs 0 m = messageInputs v 0 m := by
  obtain ⟨hpending, hoffset⟩ := start_unkeyed (v := v) h
  rw [inputs, keyInput_of_none hpending false, hpending, hoffset,
    if_neg (fun h0 => by cases h0.1), List.nil_append]

/-- The key block goes in front, or is all that goes in. -/
theorem inputs_keyed (h : p.key ≠ []) (m : Bytes) :
    (start v p).inputs 0 m =
      if m = [] then [⟨Bytes.padTo v.blockLen p.key, v.blockLen, true⟩]
      else ⟨Bytes.padTo v.blockLen p.key, v.blockLen, false⟩ ::
        messageInputs v v.blockLen m := by
  obtain ⟨hpending, hoffset⟩ := start_keyed (v := v) h
  rw [inputs, keyInput, keyInput, hpending, hoffset]
  by_cases hm : m = []
  · rw [if_pos ⟨rfl, hm⟩, if_pos hm]
    rfl
  · rw [if_neg (fun h0 => hm h0.2), if_neg hm]
    rfl

end Core

/-- The inputs of a message from the start are those of the standard. -/
theorem inputs_start (p : Params) (m : Bytes) :
    (Core.start v p).inputs 0 m = Standard.inputs v p.key m := by
  rw [standard_inputs_eq, Standard.totalBytes, ← blockLen_eq]
  by_cases hkey : p.key = []
  · rw [Core.inputs_unkeyed hkey, messageInputs_eq, hkey, dataBlocks_unkeyed, if_pos rfl,
      Nat.zero_add, Nat.add_zero]
  · rw [Core.inputs_keyed hkey, dataBlocks_keyed hkey, if_neg hkey]
    by_cases hm : m = []
    · rw [if_pos hm, if_pos hm, numbered_single, hm, List.length_nil, Nat.zero_add]
    · rw [if_neg hm, if_neg hm, messageInputs_eq,
        numbered_cons _ _ _ (messageBlocks_ne_nil m), Nat.zero_add, Nat.add_comm m.length]

/-! ## Digests -/

theorem bytesOf_eq (ws : Vector v.Word 8) :
    bytesOf ws = (List.ofFn (entries ws)).flatMap fun w =>
      Bytes.toLE (Standard.blockBytes v / 16) w.toNat := by
  have hlist : ws.toList = List.ofFn (entries ws) := by
    apply List.ext_getElem
    · simp
    · intro i hi hi'
      rw [List.getElem_ofFn]
      rfl
  rw [bytesOf, hlist, wordLen_eq]

theorem chain_consume (h : Standard.Admissible v p) (m : Bytes) :
    entries ((backend v).consume (Core.start v p) 0 m).chain = Standard.state v p m := by
  rw [consume_eq, inputs_start, Core.entries_absorb, Core.entries_start h, Standard.state]

/-- **Block by block, a message gets the hash of the standard.** -/
theorem reference_eq (h : Standard.Admissible v p) (m : Bytes) :
    (backend v).reference p m = .ok (Standard.hash v p m) := by
  have hinit : (backend v).init p = .ok (Core.start v p) := Core.ofParams_eq h
  rw [Backend.reference, hinit, except_ok_bind, Standard.hash, ← chain_consume h, ← bytesOf_eq]
  change Except.ok ((bytesOf _).take (Bytes.zeros p.digestLen).length) = _
  rw [Bytes.length_zeros]

section
variable {lanes : LaneWidth} {size : Nat} {m : Bytes} {pieces : List Bytes}

/-- What a stream on BLAKE2 has been through since it got its parameters. -/
theorem start_of_absorbed {s : Stream ((backend v).withBuffer lanes size)}
    (h : s.Absorbed p m pieces) :
    Standard.Admissible v p ∧ s.digestLen = p.digestLen ∧
      s.core = (backend v).applyAll (Core.start v p) (interiorCalls 0 pieces) := by
  obtain ⟨c, hc, hcore⟩ := h.core_eq
  have hp : Standard.Admissible v p := Core.admissible_of_ofParams hc
  have hinit : Core.ofParams v p = .ok (Core.start v p) := Core.ofParams_eq hp
  cases hinit.symm.trans hc
  refine ⟨hp, ?_, hcore⟩
  rw [Stream.digestLen, hcore, ((blockwise v).withBuffer lanes size).digestLen_applyAll]
  rfl

theorem hash_of_absorbed (hB : ((backend v).withBuffer lanes size).Aligned)
    {s : Stream ((backend v).withBuffer lanes size)} (h : s.Absorbed p m pieces) :
    Standard.Admissible v p ∧ s.digest = .ok (Standard.hash v p m) ∧
      ∀ out : Bytes, out.length = p.digestLen → s.finish out = .ok () (Standard.hash v p m) := by
  obtain ⟨hp, hlen, -⟩ := start_of_absorbed h
  obtain ⟨d, hd, hdigest, hfinish⟩ := h.digest_eq hB ((blockwise v).withBuffer lanes size)
  rw [Backend.reference_withBuffer, reference_eq hp] at hd
  cases hd
  exact ⟨hp, hdigest, fun out hout => hfinish out (hout.trans hlen.symm)⟩

end

theorem length_inputs (key : Bytes) {m : Bytes} (hm : m ≠ []) (hd : v.blockLen ∣ m.length) :
    (Standard.inputs v key m).length = m.length / v.blockLen + if key = [] then 0 else 1 := by
  have hblocks : (messageBlocks v m).length = m.length / v.blockLen := by
    have hpos := blockLen_pos v
    obtain ⟨k, hk⟩ := hd
    rw [messageBlocks, if_neg hm, List.length_map, Bytes.segments, Bytes.length_pieces, hk,
      Nat.mul_div_cancel_left k hpos, Nat.add_sub_assoc hpos,
      Nat.mul_add_div hpos, Nat.div_eq_of_lt (by omega), Nat.add_zero]
  rw [Standard.inputs, List.length_mapIdx]
  split_ifs with hkey
  · rw [hkey, dataBlocks_unkeyed, hblocks, Nat.add_zero]
  · rw [dataBlocks_keyed hkey, if_neg hm, List.length_cons, hblocks]

/-- **Every stream computes the standard's hash**: in one step, in chunks and in
any run of a client, whatever the size of the buffer. The key block of an empty
message is the last block, and a message of whole blocks gets no block more. -/
theorem hash_of_streams (v : Variant) (lanes : LaneWidth) {size : Nat} (hs : 0 < size)
    (hd : v.blockLen ∣ size) :
    (∀ (p : Params) (m out : Bytes), Standard.Admissible v p → m.length ≤ v.maxInput →
      out.length = p.digestLen →
        Stream.oneshot ((backend v).withBuffer lanes size) p m out =
          .ok () (Standard.hash v p m)) ∧
    (∀ (p : Params) (chunks : List Bytes), Standard.Admissible v p →
      chunks.flatten.length ≤ v.maxInput →
        ∃ s, Stream.create ((backend v).withBuffer lanes size) p >>= (·.updateAll chunks) = .ok s ∧
          s.digest = .ok (Standard.hash v p chunks.flatten) ∧
          ∀ out : Bytes, out.length = p.digestLen →
            s.finish out = .ok () (Standard.hash v p chunks.flatten)) ∧
    (∀ (actions : List (Action Params)),
      ∀ t ∈ run ((backend v).withBuffer lanes size) actions,
        Standard.Admissible v t.params ∧
          t.stream.digest = .ok (Standard.hash v t.params t.message) ∧
          ∀ out : Bytes, out.length = t.params.digestLen →
            t.stream.finish out = .ok () (Standard.hash v t.params t.message)) ∧
    (∀ key : Bytes, key ≠ [] → Standard.inputs v key [] =
      [⟨Bytes.padTo v.blockLen key, v.blockLen, true⟩]) ∧
    (∀ key m : Bytes, m ≠ [] → v.blockLen ∣ m.length →
      (Standard.inputs v key m).length = m.length / v.blockLen + if key = [] then 0 else 1) := by
  have hB : ((backend v).withBuffer lanes size).Aligned :=
    Backend.aligned_withBuffer lanes (blockLen_pos v) hs hd
  have hw := (blockwise v).withBuffer lanes size
  refine ⟨?_, ?_, ?_, ?_, ?_⟩
  · intro p m out hp hm hout
    have hinit : ((backend v).withBuffer lanes size).init p = .ok (Core.start v p) :=
      Core.ofParams_eq hp
    have hlen : out.length =
        ((backend v).withBuffer lanes size).digestLen (Core.start v p) := hout
    obtain ⟨d, hd, honeshot⟩ := Stream.oneshot_eq hB hw hinit hm hlen
    rw [Backend.reference_withBuffer, reference_eq hp] at hd
    cases hd
    exact honeshot
  · intro p chunks hp hm
    obtain ⟨s, pieces, hs, h⟩ := Stream.exists_absorbed hB
      (show ((backend v).withBuffer lanes size).init p = .ok (Core.start v p) from
        Core.ofParams_eq hp) chunks hm
    exact ⟨s, hs, (hash_of_absorbed hB h).2⟩
  · intro actions t ht
    obtain ⟨pieces, -, h⟩ := sound_of_mem_run hB ht
    exact hash_of_absorbed hB h
  · intro key hkey
    rw [standard_inputs_eq, dataBlocks_keyed hkey, if_pos rfl, numbered_single,
      Standard.totalBytes, if_neg hkey, ← blockLen_eq, List.length_nil, Nat.zero_add]
  · intro key m hm hd
    exact length_inputs key hm hd

/-- The example of the standard, appendix B, in one step, and a keyed and salted
message in parts. -/
theorem hash_of_standard_example :
    ∃ m : Bytes, m = [0x61, 0x62, 0x63] ∧
      Standard.hash .s ⟨32, [], [], []⟩ m =
        [0x50, 0x8c, 0x5e, 0x8c, 0x32, 0x7c, 0x14, 0xe2, 0xe1, 0xa7, 0x2b, 0xa3, 0x4e, 0xeb,
          0x45, 0x2f, 0x37, 0x45, 0x8b, 0x20, 0x9e, 0xd6, 0x3a, 0x29, 0x4d, 0x99, 0x9b, 0x4c,
          0x86, 0x67, 0x59, 0x82] ∧
      Stream.oneshot ((backend .s).withBuffer .m128 256) ⟨32, [], [], []⟩ m (Bytes.zeros 32) =
        .ok () (Standard.hash .s ⟨32, [], [], []⟩ m) ∧
      ∃ p : Params, p.key = [1, 2, 3] ∧ p.salt.length = 8 ∧
        ∃ s, Stream.create ((backend .s).withBuffer .m128 256) p >>=
            (·.updateAll [m.take 1, [], m.drop 1]) = .ok s ∧
          s.digest = .ok (Standard.hash .s p m) := by
  have hp : Standard.Admissible .s ⟨32, [], [], []⟩ :=
    ⟨by decide, by decide, by decide, .inl rfl, .inl rfl⟩
  have hkeyed : Standard.Admissible .s ⟨20, [1, 2, 3], [1, 2, 3, 4, 5, 6, 7, 8], []⟩ :=
    ⟨by decide, by decide, by decide, .inr rfl, .inl rfl⟩
  obtain ⟨honeshot, hchunks, -⟩ :=
    hash_of_streams .s .m128 (show 0 < 256 by decide) (by decide)
  have habc := honeshot _ [0x61, 0x62, 0x63] (Bytes.zeros 32) hp (by decide) (by decide)
  -- the digest is computed by the stream; the theorem makes it the standard's
  have heval : (InPlace.onZeros 32 (Stream.oneshot ((backend .s).withBuffer .m128 256)
      ⟨32, [], [], []⟩ [0x61, 0x62, 0x63])).toOption = some
        [0x50, 0x8c, 0x5e, 0x8c, 0x32, 0x7c, 0x14, 0xe2, 0xe1, 0xa7, 0x2b, 0xa3, 0x4e, 0xeb,
          0x45, 0x2f, 0x37, 0x45, 0x8b, 0x20, 0x9e, 0xd6, 0x3a, 0x29, 0x4d, 0x99, 0x9b, 0x4c,
          0x86, 0x67, 0x59, 0x82] := by decide +kernel
  rw [InPlace.onZeros, EStateM.run, habc] at heval
  obtain ⟨s, hs, hdigest, -⟩ := hchunks _ [[0x61], [], [0x62, 0x63]] hkeyed (by decide)
  exact ⟨_, rfl, Option.some.inj heval, habc, _, rfl, rfl, s, hs, hdigest⟩

end StreamDigest.Blake2
