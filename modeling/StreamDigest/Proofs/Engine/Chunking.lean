import StreamDigest.Ghash.Core
import StreamDigest.Poly1305.Core
import StreamDigest.Proofs.Blake2.Schedule
import StreamDigest.Proofs.Engine.Blockwise

/-!
# Digests do not depend on chunks

The backends of the library (`Builtin`) are blockwise, so that every stream on
one of them gives, at every point of every run, the digest of its message taken
in block by block: neither the chunks, nor the size of the buffer, nor what the
stream went through before its parameters were set shows in it.
-/

namespace StreamDigest

/-- The backends of the library. -/
inductive Builtin : {π σ : Type} → Backend π σ → Prop where
  | blake2 (v : Blake2.Variant) : Builtin (Blake2.backend v)
  | poly1305 : Builtin Poly1305.backend
  | ghash : Builtin Ghash.backend

/-- A fold over whole blocks does not see where a call ends. -/
theorem foldl_blocks_append {σ : Type} {n : Nat} (hn : 0 < n) (step : σ → Bytes → σ) (c : σ)
    (a b : Bytes) (ha : n ∣ a.length) :
    (Bytes.blocks n (a ++ b)).foldl step c =
      (Bytes.blocks n b).foldl step ((Bytes.blocks n a).foldl step c) := by
  rw [Bytes.blocks_append hn a b ha, List.foldl_append]

theorem Poly1305.blockwise : Poly1305.backend.Blockwise where
  interior_append c _ a b ha _ := foldl_blocks_append (by decide) (Core.step true) c a b ha
  digestLen_interior _ _ _ := rfl
  extract_eq c c' out h := by
    change c.tag ++ out.drop tagLen = c.tag ++ (Bytes.zeros out.length).drop tagLen
    have hout : out.length = tagLen := h
    rw [hout, List.drop_of_length_le hout.le, List.drop_of_length_le (Bytes.length_zeros _).le]

theorem Ghash.blockwise : Ghash.backend.Blockwise where
  interior_append c _ a b ha _ := foldl_blocks_append (by decide) Core.step c a b ha
  digestLen_interior _ _ _ := rfl
  extract_eq _ _ _ _ := rfl

namespace Builtin

variable {π σ : Type} {B : Backend π σ}

theorem blockwise (h : Builtin B) : B.Blockwise := by
  cases h with
  | blake2 v => exact Blake2.blockwise v
  | poly1305 => exact Poly1305.blockwise
  | ghash => exact Ghash.blockwise

theorem blockLen_eq (h : Builtin B) : B.blockLen = B.algorithm.blockLen := by
  cases h with
  | blake2 v => cases v <;> rfl
  | poly1305 => rfl
  | ghash => rfl

/-- A limit is a word of 64 bits. -/
theorem maxInput_lt (h : Builtin B) : B.maxInput < 2 ^ 64 := by
  cases h with
  | blake2 v => cases v <;> decide
  | poly1305 => decide
  | ghash => decide

end Builtin

theorem Algorithm.blockLen_pos (a : Algorithm) : 0 < a.blockLen := by cases a <;> decide

theorem Algorithm.bufferLen_pos (a : Algorithm) (lanes : LaneWidth) : 0 < a.bufferLen lanes := by
  cases a <;> cases lanes <;> decide

theorem Builtin.aligned {π σ : Type} {B : Backend π σ} (h : Builtin B) (lanes : LaneWidth)
    {size : Nat} (hs : 0 < size) (hd : B.blockLen ∣ size) : (B.withBuffer lanes size).Aligned :=
  Backend.aligned_withBuffer lanes (h.blockLen_eq ▸ Algorithm.blockLen_pos _) hs hd

/-- Parameters that a backend accepts make a stream, and reset any stream of any run. Any
message within the limit may follow, so that every digest stands behind a reset as well. -/
theorem reset_of_mem_run {π σ : Type} {B : Backend π σ} (h : Builtin B) (lanes : LaneWidth)
    {size : Nat} (hs : 0 < size) (hd : B.blockLen ∣ size) {params : π} {c : σ}
    (hc : B.init params = .ok c) :
    (∃ s, Stream.create (B.withBuffer lanes size) params = .ok s) ∧
    ∀ (actions : List (Action π)) (on : Nat) (t : Traced (B.withBuffer lanes size)),
      (run (B.withBuffer lanes size) actions)[on]? = some t →
        (∃ s, t.stream.reset params = .ok s) ∧
        ∀ m : Bytes, m.length ≤ B.maxInput →
          ∃ t' ∈ run (B.withBuffer lanes size)
              (actions ++ [.reset on params] ++ [.update on m]),
            t'.params = params ∧ t'.message = m := by
  have hc' : (B.withBuffer lanes size).init params = .ok c := hc
  refine ⟨⟨_, Stream.create_eq hc'⟩, fun actions on t ht => ⟨?_, fun m hm => ?_⟩⟩
  · rw [Stream.reset, hc']
    exact ⟨_, rfl⟩
  · exact exists_mem_run_reset (h.aligned lanes hs hd) ht hc' hm

/-- **Chunks, lanes and history do not matter.** -/
theorem digest_of_mem_run {π σ : Type} {B : Backend π σ} (h : Builtin B) :
    (∀ lanes, B.withLanes lanes = B.withBuffer lanes (B.algorithm.bufferLen lanes) ∧
      0 < B.algorithm.bufferLen lanes ∧ B.blockLen ∣ B.algorithm.bufferLen lanes) ∧
    ∀ lanes size, 0 < size → B.blockLen ∣ size →
      ∀ actions : List (Action π), ∀ t ∈ run (B.withBuffer lanes size) actions,
        t.stream.total = t.message.length ∧
        t.stream.buffered =
          .ok (t.message.drop (t.message.length - residual t.message.length size)) ∧
        (∀ data, t.message.length + data.length ≤ B.maxInput →
          ∃ s, t.stream.update data = .ok s) ∧
        ∃ d, B.reference t.params t.message = .ok d ∧ t.stream.digest = .ok d ∧
          ∀ out : Bytes, out.length = t.stream.digestLen → t.stream.finish out = .ok () d := by
  refine ⟨fun lanes => ⟨Backend.withLanes_eq lanes, Algorithm.bufferLen_pos _ lanes, ?_⟩, ?_⟩
  · rw [h.blockLen_eq]
    exact Nat.dvd_mul_left _ _
  · intro lanes size hs hd actions t ht
    have hB := h.aligned lanes hs hd
    obtain ⟨pieces, -, ha⟩ := sound_of_mem_run hB ht
    obtain ⟨d, href, hdigest⟩ := ha.digest_eq hB (h.blockwise.withBuffer lanes size)
    rw [Backend.reference_withBuffer] at href
    refine ⟨ha.total, ha.buffered hB, ?_, d, href, hdigest⟩
    intro data hlen
    obtain ⟨_, _, s, -, hs', -⟩ := ha.update hB hlen
    exact ⟨s, hs'⟩

/-- A clone goes on by itself, on a buffer of two blocks. -/
theorem digest_of_clone :
    ∃ t ∈ run (Ghash.backend.withBuffer .m128 32)
        [.create (FixedBytes.zero 16), .update 0 (Bytes.zeros 40), .clone 0, .update 1 [7],
          .reset 0 (FixedBytes.zero 16)],
      t.message = Bytes.zeros 40 ++ [7] ∧
      ∃ d, Ghash.backend.reference t.params (Bytes.zeros 40 ++ [7]) = .ok d ∧
        t.stream.digest = .ok d := by
  obtain ⟨t, ht, hm⟩ : ∃ t, (run (Ghash.backend.withBuffer .m128 32)
      [.create (FixedBytes.zero 16), .update 0 (Bytes.zeros 40), .clone 0, .update 1 [7],
        .reset 0 (FixedBytes.zero 16)])[1]? = some t ∧ t.message = Bytes.zeros 40 ++ [7] :=
    ⟨_, rfl, rfl⟩
  obtain ⟨-, -, -, d, href, hdigest, -⟩ := (digest_of_mem_run .ghash).2 .m128 32 (by decide)
    (by decide) _ t (List.mem_of_getElem? ht)
  exact ⟨t, List.mem_of_getElem? ht, hm, d, hm ▸ href, hdigest⟩

end StreamDigest
