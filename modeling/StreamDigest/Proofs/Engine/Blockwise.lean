import StreamDigest.Proofs.Engine.Run

/-!
# Digests without a buffer

`Backend.reference` is the digest of a message taken in one block at a time,
with no engine in it. A backend is `Blockwise` if interior blocks may be given
in one call or in several; then a stream gives the reference digest whatever
the chunks, the size of its buffer and its past (`Absorbed.digest_eq`).
-/

namespace StreamDigest

variable {π σ : Type} {B : Backend π σ}

namespace Backend

/-- Take in a message with `prior` bytes before it, block by block. The last
block, full or not, is the final one; it is empty only if the message is. -/
def consume (B : Backend π σ) (c : σ) (prior : Nat) (m : Bytes) : σ :=
  if B.blockLen < m.length ∧ 0 < B.blockLen then
    B.consume (B.interior c prior (m.take B.blockLen)) (prior + B.blockLen) (m.drop B.blockLen)
  else B.final c prior m
termination_by m.length
decreasing_by
  simp only [List.length_drop]
  omega

/-- The digest of a message, block by block. -/
def reference (B : Backend π σ) (params : π) (m : Bytes) : Except Error Bytes := do
  let c ← B.init params
  return B.extract (B.consume c 0 m) (Bytes.zeros (B.digestLen c))

/-- The same backend with another buffer. -/
def withBuffer (B : Backend π σ) (lanes : LaneWidth) (size : Nat) : Backend π σ :=
  { B with lanes, bufferLen := size }

theorem withLanes_eq (lanes : LaneWidth) :
    B.withLanes lanes = B.withBuffer lanes (B.algorithm.bufferLen lanes) := rfl

theorem aligned_withBuffer (lanes : LaneWidth) {size : Nat} (hb : 0 < B.blockLen)
    (hs : 0 < size) (hd : B.blockLen ∣ size) : (B.withBuffer lanes size).Aligned := ⟨hb, hs, hd⟩

theorem consume_of_le {c : σ} {prior : Nat} {m : Bytes} (h : m.length ≤ B.blockLen) :
    B.consume c prior m = B.final c prior m := by
  rw [consume, if_neg (by omega)]

theorem consume_of_lt {c : σ} {prior : Nat} {m : Bytes} (hb : 0 < B.blockLen)
    (h : B.blockLen < m.length) :
    B.consume c prior m = B.consume (B.interior c prior (m.take B.blockLen)) (prior + B.blockLen)
      (m.drop B.blockLen) := by
  rw [consume, if_pos ⟨h, hb⟩]

theorem consume_withBuffer (lanes : LaneWidth) (size : Nat) (c : σ) (prior : Nat) (m : Bytes) :
    (B.withBuffer lanes size).consume c prior m = B.consume c prior m := by
  fun_induction B.consume c prior m with
  | case1 c prior m h ih => rw [consume]; exact (if_pos h).trans ih
  | case2 c prior m h => rw [consume]; exact if_neg h

theorem reference_withBuffer (lanes : LaneWidth) (size : Nat) (params : π) (m : Bytes) :
    (B.withBuffer lanes size).reference params m = B.reference params m := by
  simp only [reference, consume_withBuffer]
  rfl

/-- Interior blocks may be given in one call or in several, and an output of the
digest's length is overwritten as a whole. -/
structure Blockwise (B : Backend π σ) : Prop where
  interior_append : ∀ (c : σ) (prior : Nat) (a b : Bytes), B.blockLen ∣ a.length →
    B.blockLen ∣ b.length →
      B.interior c prior (a ++ b) = B.interior (B.interior c prior a) (prior + a.length) b
  digestLen_interior : ∀ (c : σ) (prior : Nat) (a : Bytes),
    B.digestLen (B.interior c prior a) = B.digestLen c
  extract_eq : ∀ (c c' : σ) (out : Bytes), out.length = B.digestLen c' →
    B.extract c out = B.extract c (Bytes.zeros out.length)

theorem Blockwise.withBuffer (h : B.Blockwise) (lanes : LaneWidth) (size : Nat) :
    (B.withBuffer lanes size).Blockwise :=
  ⟨h.interior_append, h.digestLen_interior, h.extract_eq⟩

namespace Blockwise

/-- Whole blocks in front may be taken in by one call. -/
theorem consume_append (hw : B.Blockwise) (hb : 0 < B.blockLen) (c : σ) (prior : Nat) (a : Bytes)
    {m : Bytes} (ha : B.blockLen ∣ a.length) (ha0 : a ≠ []) (hm : m ≠ []) :
    B.consume c prior (a ++ m) = B.consume (B.interior c prior a) (prior + a.length) m := by
  have hpos := List.length_pos_of_ne_nil ha0
  have hmpos := List.length_pos_of_ne_nil hm
  have hle := Nat.le_of_dvd hpos ha
  rw [consume_of_lt hb (by rw [List.length_append]; omega),
    List.take_append_of_le_length hle, List.drop_append_of_le_length hle]
  by_cases hlast : a.drop B.blockLen = []
  · have hlen : a.length = B.blockLen := by
      rw [List.drop_eq_nil_iff] at hlast
      omega
    rw [hlast, List.nil_append, List.take_of_length_le hlen.le, hlen]
  · have hd : B.blockLen ∣ (a.drop B.blockLen).length := by
      rw [List.length_drop]; exact Nat.dvd_sub ha (Nat.dvd_refl _)
    have htake : (a.take B.blockLen).length = B.blockLen := by
      rw [List.length_take]; omega
    have happ := hw.interior_append c prior (a.take B.blockLen) (a.drop B.blockLen)
      (by rw [htake]) hd
    rw [hw.consume_append hb _ _ (a.drop B.blockLen) hd hlast hm]
    rw [List.take_append_drop, htake] at happ
    rw [← happ, List.length_drop, show prior + B.blockLen + (a.length - B.blockLen) =
      prior + a.length by omega]
termination_by a.length
decreasing_by
  simp only [List.length_drop]
  omega

theorem consume_flatten (hw : B.Blockwise) (hb : 0 < B.blockLen) (c : σ) (prior : Nat)
    (pieces : List Bytes) (hp : ∀ p ∈ pieces, p ≠ [] ∧ B.blockLen ∣ p.length) {m : Bytes}
    (hm : m ≠ []) :
    B.consume c prior (pieces.flatten ++ m) =
      B.consume (B.applyAll c (interiorCalls prior pieces)) (prior + pieces.flatten.length) m := by
  induction pieces generalizing c prior with
  | nil => rfl
  | cons p pieces ih =>
    obtain ⟨hp0, hpd⟩ := hp p List.mem_cons_self
    have hne : pieces.flatten ++ m ≠ [] := by simp [hm]
    rw [List.flatten_cons, List.append_assoc, hw.consume_append hb c prior p hpd hp0 hne,
      ih _ _ (fun q hq => hp q (List.mem_cons_of_mem _ hq)), List.length_append, Nat.add_assoc]
    rfl

theorem digestLen_applyAll (hw : B.Blockwise) (c : σ) (prior : Nat) (pieces : List Bytes) :
    B.digestLen (B.applyAll c (interiorCalls prior pieces)) = B.digestLen c := by
  induction pieces generalizing c prior with
  | nil => rfl
  | cons p pieces ih =>
    rw [interiorCalls]
    exact (ih (B.interior c prior p) _).trans (hw.digestLen_interior c prior p)

end Blockwise

end Backend

namespace Stream

variable {s : Stream B} {params : π} {m : Bytes} {pieces : List Bytes}

namespace Absorbed

/-- All calls for a digest, those of a finish included, are for the message in
whole blocks and a last one, which is empty only if there is no message. -/
theorem exists_calls (hB : B.Aligned) (h : s.Absorbed params m pieces) :
    ∃ closing whole last, s.finishCalls s.digestLen = .ok closing ∧
      interiorCalls 0 pieces ++ closing =
        interiorCalls 0 whole ++ [.final (0 + whole.flatten.length) last, .extract s.digestLen] ∧
      whole.flatten ++ last = m ∧ (∀ p ∈ whole, p ≠ [] ∧ B.blockLen ∣ p.length) ∧
      last.length ≤ B.blockLen ∧ (last = [] → whole = []) := by
  have hflat : (pieces ++ asPiece (handedOn B.blockLen (heldBack B.bufferLen m))).flatten =
      handedOn B.blockLen m := by
    rw [List.flatten_append, h.flatten_eq, flatten_asPiece,
      handedOn_append_handedOn hB.blockLen_pos hB.dvd]
  have hwhole : ∀ p ∈ pieces ++ asPiece (handedOn B.blockLen (heldBack B.bufferLen m)),
      p ≠ [] ∧ B.blockLen ∣ p.length := by
    intro p hp
    rcases List.mem_append.1 hp with hp | hp
    · obtain ⟨h0, hd⟩ := h.whole p hp
      exact ⟨h0, hB.dvd.trans hd⟩
    · obtain ⟨rfl, h0⟩ := mem_asPiece.1 hp
      exact ⟨h0, dvd_length_handedOn B.blockLen _⟩
  refine ⟨_, pieces ++ asPiece (handedOn B.blockLen (heldBack B.bufferLen m)),
    heldBack B.blockLen m, h.finishCalls hB, ?_, ?_, hwhole,
    length_heldBack_le hB.blockLen_pos m, fun h0 => ?_⟩
  · rw [interiorCalls_append, hflat, h.flatten_eq, List.append_assoc, Nat.zero_add, Nat.zero_add]
  · rw [hflat, handedOn_append_heldBack]
  · refine List.eq_nil_iff_forall_not_mem.2 fun p hp => (hwhole p hp).1 ?_
    refine List.flatten_eq_nil_iff.1 (hflat.trans ?_) p hp
    rw [heldBack_eq_nil.1 h0]
    rfl

/-- The calls of a finish leave a copy of the chaining state where the blocks of
the message, one by one, lead. -/
theorem applyAll_finish (hB : B.Aligned) (hw : B.Blockwise) (h : s.Absorbed params m pieces)
    {c : σ} (hc : B.init params = .ok c) :
    ∃ closing, s.finishCalls s.digestLen = .ok closing ∧
      B.applyAll s.core closing = B.consume c 0 m := by
  obtain ⟨c', hc', hcore⟩ := h.core_eq
  cases hc.symm.trans hc'
  obtain ⟨closing, whole, last, hclosing, hcalls, hm, hwhole, hle, hlast⟩ := h.exists_calls hB
  refine ⟨closing, hclosing, ?_⟩
  rw [hcore, ← Backend.applyAll_append, hcalls, Backend.applyAll_append]
  change B.final _ _ _ = _
  by_cases h0 : last = []
  · rw [hlast h0, h0] at hm ⊢
    rw [← hm, Backend.consume_of_le (Nat.zero_le _)]
    rfl
  · rw [← hm, hw.consume_flatten hB.blockLen_pos c 0 whole hwhole h0, Backend.consume_of_le hle]

/-- **Chunks, buffer and past do not matter**: the digest is that of the message
taken in block by block. -/
theorem digest_eq (hB : B.Aligned) (hw : B.Blockwise) (h : s.Absorbed params m pieces) :
    ∃ d, B.reference params m = .ok d ∧ s.digest = .ok d ∧
      ∀ out : Bytes, out.length = s.digestLen → s.finish out = .ok () d := by
  obtain ⟨c, hc, hcore⟩ := h.core_eq
  have hlen : s.digestLen = B.digestLen c := by
    rw [digestLen, hcore, hw.digestLen_applyAll]
  have hfinish : ∀ out : Bytes, out.length = s.digestLen →
      s.finish out = .ok () (B.extract (B.consume c 0 m) (Bytes.zeros (B.digestLen c))) := by
    intro out hout
    obtain ⟨closing, hclosing, hconsume⟩ := h.applyAll_finish hB hw hc
    rw [finish, hout, hclosing]
    dsimp only
    rw [hconsume, hw.extract_eq _ s.core out hout, hout, hlen]
  refine ⟨_, ?_, ?_, hfinish⟩
  · rw [Backend.reference, hc]
    rfl
  · rw [digest, InPlace.onZeros, EStateM.run, hfinish _ (Bytes.length_zeros _)]

end Absorbed

/-- The digest in one step is the reference digest. -/
theorem oneshot_eq (hB : B.Aligned) (hw : B.Blockwise) {c : σ} (hc : B.init params = .ok c)
    (hm : m.length ≤ B.maxInput) {out : Bytes} (hout : out.length = B.digestLen c) :
    ∃ d, B.reference params m = .ok d ∧ oneshot B params m out = .ok () d := by
  have hwithin : ([] : Bytes).length + m.length ≤ B.maxInput := by simpa using hm
  obtain ⟨completed, bulk, s, -, hs, hcore, -, h⟩ := (absorbed_of_init hc).update hB hwithin
  obtain ⟨d, hd, -, hfinish⟩ := h.digest_eq hB hw
  refine ⟨d, hd, ?_⟩
  have hlen : out.length = s.digestLen := by
    rw [digestLen, hcore, hw.digestLen_applyAll, hout]
  rw [oneshot, create_eq hc, except_ok_bind, hs]
  exact hfinish out hlen

end Stream

end StreamDigest
