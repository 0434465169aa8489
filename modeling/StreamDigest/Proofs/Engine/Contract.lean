import StreamDigest.Engine.Probe
import StreamDigest.Proofs.Engine.Run

/-!
# What a stream asks of its backend

Whatever a backend does with its calls, at every point of every run the live
chaining state has been given the message in order: interior calls for
consecutive pieces, each a whole number of buffers with the exact count of
bytes before it, together the message without what the buffer holds back. An
update adds at most two such calls, and finishing gives a copy of the state the
rest: whole blocks, the last block, and the request for the digest.

`Backend.recording` keeps the calls in the chaining state, in the order in which
they are made. On it the schedule is what the state of a stream shows
(`recorded_of_mem_run`).
-/

namespace StreamDigest

variable {π σ : Type} {B : Backend π σ}

/-- Finishing gives a copy of the state what the message has behind the buffers that were
handed on: whole blocks, at most one call for all, and the last block. -/
theorem Stream.Absorbed.exists_finish (hB : B.Aligned) {s : Stream B} {params : π} {m : Bytes}
    {pieces : List Bytes} (h : s.Absorbed params m pieces) {out : Bytes}
    (hout : out.length = s.digestLen) :
    ∃ whole last calls, s.finishCalls out.length = .ok calls ∧
      calls = interiorCalls (handedOn B.bufferLen m).length whole ++
        [.final (m.length - last.length) last, .extract out.length] ∧
      s.finish out = .ok () (B.extract (B.applyAll s.core calls) out) ∧
      whole.length ≤ 1 ∧ (∀ p ∈ whole, p ≠ [] ∧ B.blockLen ∣ p.length) ∧
      last.length ≤ B.blockLen ∧ (last = [] ↔ m = []) ∧
      handedOn B.bufferLen m ++ whole.flatten ++ last = m := by
  have hfin := h.finishCalls hB
  have hlen := length_handedOn_add B.blockLen m
  refine ⟨asPiece (handedOn B.blockLen (heldBack B.bufferLen m)), heldBack B.blockLen m, _,
    by rw [hout, hfin], ?_, by rw [Stream.finish, hout, hfin], length_asPiece_le _, ?_,
    length_heldBack_le hB.blockLen_pos m, heldBack_eq_nil, ?_⟩
  · rw [hout, show m.length - (heldBack B.blockLen m).length =
      (handedOn B.blockLen m).length by omega]
  · intro p hp
    obtain ⟨rfl, hp0⟩ := mem_asPiece.1 hp
    exact ⟨hp0, dvd_length_handedOn B.blockLen _⟩
  · rw [flatten_asPiece, handedOn_append_handedOn hB.blockLen_pos hB.dvd, handedOn_append_heldBack]

/-- **The schedule of calls**, for any backend and any run. -/
theorem calls_of_mem_run (hB : B.Aligned) {actions : List (Action π)} {t : Traced B}
    (ht : t ∈ run B actions) :
    -- the live state took in all whole buffers that more input follows
    (∃ c pieces, B.init t.params = .ok c ∧ t.stream.core = B.applyAll c t.calls ∧
      t.calls = interiorCalls 0 pieces ∧
      pieces.flatten =
        t.message.take (t.message.length - residual t.message.length B.bufferLen) ∧
      ∀ p ∈ pieces, p ≠ [] ∧ B.bufferLen ∣ p.length) ∧
    -- an update hands on the completed buffer, then all further whole buffers
    (∀ data, t.message.length + data.length ≤ B.maxInput →
      ∃ completed bulk t', t.update data = .ok t' ∧
        t.stream.update data = .ok t'.stream ∧
        t'.calls = t.calls ++ interiorCalls
          (t.message.length - residual t.message.length B.bufferLen) (completed ++ bulk) ∧
        t'.stream.core = B.applyAll t.stream.core (interiorCalls
          (t.message.length - residual t.message.length B.bufferLen) (completed ++ bulk)) ∧
        completed.length ≤ 1 ∧ bulk.length ≤ 1 ∧ (∀ p ∈ completed, p.length = B.bufferLen) ∧
        ∀ prior piece, .interior prior piece ∈ interiorCalls
            (t.message.length - residual t.message.length B.bufferLen) (completed ++ bulk) →
          t.message.length ≤ prior + piece.length ∧
            prior + piece.length < t.message.length + data.length) ∧
    -- a finish gives the rest of the message to a copy
    (∀ out : Bytes, out.length = t.stream.digestLen →
      ∃ whole last calls, t.stream.finishCalls out.length = .ok calls ∧
        calls = interiorCalls (t.message.length - residual t.message.length B.bufferLen) whole ++
          [.final (t.message.length - last.length) last, .extract out.length] ∧
        t.stream.finish out = .ok () (B.extract (B.applyAll t.stream.core calls) out) ∧
        whole.length ≤ 1 ∧ (∀ p ∈ whole, p ≠ [] ∧ B.blockLen ∣ p.length) ∧
        last.length ≤ B.blockLen ∧ (last = [] ↔ t.message = []) ∧
        t.message.take (t.message.length - residual t.message.length B.bufferLen) ++
          whole.flatten ++ last = t.message) := by
  obtain ⟨pieces, hcalls, h⟩ := sound_of_mem_run hB ht
  rw [← length_handedOn]
  refine ⟨?_, ?_, ?_⟩
  · obtain ⟨c, hc, hcore⟩ := h.core_eq
    exact ⟨c, pieces, hc, by rw [hcalls, hcore], hcalls,
      by rw [h.flatten_eq, length_handedOn]; rfl, h.whole⟩
  · intro data hd
    obtain ⟨completed, bulk, s', hc, hs', hcore, hon, -⟩ := h.update hB hd
    refine ⟨completed, bulk, ⟨s', t.params, t.message ++ data, t.calls ++ interiorCalls
      (handedOn B.bufferLen t.message).length (completed ++ bulk)⟩, ?_, hs', rfl, hcore,
      hon.completed_le, hon.bulk_le, hon.completed_size, ?_⟩
    · rw [Traced.update, hc, except_ok_bind, hs']
      rfl
    · intro prior piece hp
      exact hon.followed hB.bufferLen_pos hp
  · intro out hout
    rw [show t.message.take (handedOn B.bufferLen t.message).length =
      handedOn B.bufferLen t.message by rw [length_handedOn]; rfl]
    exact h.exists_finish hB hout

/-- A clone that is fed again has handed on two buffers, and holds six bytes. -/
theorem calls_of_clone :
    ∃ t ∈ run (Probe.backend .ghash .m128 100)
        [.create 8, .update 0 (Bytes.zeros 40), .clone 0, .update 1 (Bytes.zeros 30)],
      t.message = Bytes.zeros 70 ∧
      ∃ pieces, t.calls = interiorCalls 0 pieces ∧ pieces.flatten = Bytes.zeros 64 ∧
        ∀ p ∈ pieces, p ≠ [] ∧ 32 ∣ p.length := by
  obtain ⟨t, ht, hm⟩ : ∃ t, (run (Probe.backend .ghash .m128 100)
      [.create 8, .update 0 (Bytes.zeros 40), .clone 0, .update 1 (Bytes.zeros 30)])[1]? = some t ∧
        t.message = Bytes.zeros 70 := ⟨_, rfl, rfl⟩
  have hB : (Probe.backend .ghash .m128 100).Aligned := ⟨by decide, by decide, by decide⟩
  obtain ⟨⟨c, pieces, -, -, hcalls, hflat, hwhole⟩, -⟩ :=
    calls_of_mem_run hB (List.mem_of_getElem? ht)
  rw [hm] at hflat
  exact ⟨t, List.mem_of_getElem? ht, hm, pieces, hcalls, hflat, hwhole⟩

/-! ## Recorded calls -/

/-- Does the call change the chaining state? -/
def Call.compresses : Call → Bool
  | .interior _ _ | .final _ _ => true
  | .extract _ => false

/-- The backend with a record of the calls that its state took in. A digest is what `write`
makes of the record. -/
def Backend.recording (B : Backend π σ) (write : List Call → Bytes → Bytes) :
    Backend π (σ × List Call) where
  algorithm := B.algorithm
  lanes := B.lanes
  blockLen := B.blockLen
  bufferLen := B.bufferLen
  maxInput := B.maxInput
  init params := do return (← B.init params, [])
  digestLen s := B.digestLen s.1
  interior s prior blocks := (B.interior s.1 prior blocks, s.2 ++ [.interior prior blocks])
  final s prior last := (B.final s.1 prior last, s.2 ++ [.final prior last])
  extract s out := write s.2 out
  extractsTo := B.extractsTo
  wiped := (B.wiped, [])

section
variable (write : List Call → Bytes → Bytes)

theorem applyAll_recording (c : σ) (record calls : List Call) :
    (B.recording write).applyAll (c, record) calls =
      (B.applyAll c calls, record ++ calls.filter Call.compresses) := by
  induction calls generalizing c record with
  | nil => rw [List.filter_nil, List.append_nil]; rfl
  | cons call calls ih =>
    cases call with
    | interior prior blocks =>
      refine (ih _ _).trans ?_
      rw [List.append_assoc]
      rfl
    | final prior last =>
      refine (ih _ _).trans ?_
      rw [List.append_assoc]
      rfl
    | extract len => exact ih c record

theorem filter_interiorCalls (prior : Nat) (pieces : List Bytes) :
    (interiorCalls prior pieces).filter Call.compresses = interiorCalls prior pieces := by
  refine List.filter_eq_self.2 fun call h => ?_
  obtain ⟨at', piece, rfl, -⟩ := mem_interiorCalls h
  rfl

/-- **The record of a stream** at any point of any run is the schedule, and a digest is
written from the record of a copy that took in the rest of the message. -/
theorem recorded_of_mem_run (hB : B.Aligned) {actions : List (Action π)}
    {t : Traced (B.recording write)} (ht : t ∈ run (B.recording write) actions) :
    ∃ pieces, t.stream.core.2 = interiorCalls 0 pieces ∧
      pieces.flatten = t.message.take (t.message.length - residual t.message.length B.bufferLen) ∧
      (∀ p ∈ pieces, p ≠ [] ∧ B.bufferLen ∣ p.length) ∧
      ∀ out : Bytes, out.length = t.stream.digestLen →
        ∃ whole last, whole.length ≤ 1 ∧ (∀ p ∈ whole, p ≠ [] ∧ B.blockLen ∣ p.length) ∧
          last.length ≤ B.blockLen ∧ (last = [] ↔ t.message = []) ∧
          pieces.flatten ++ whole.flatten ++ last = t.message ∧
          t.stream.finish out = .ok () (write (interiorCalls 0 (pieces ++ whole) ++
            [.final (t.message.length - last.length) last]) out) := by
  have hB' : (B.recording write).Aligned := ⟨hB.blockLen_pos, hB.bufferLen_pos, hB.dvd⟩
  obtain ⟨pieces, -, h⟩ := sound_of_mem_run hB' ht
  obtain ⟨⟨c, record⟩, hc, hcore⟩ := h.core_eq
  -- a fresh record is empty
  obtain ⟨c, -, hfresh⟩ := except_bind_eq_ok.1 hc
  cases hfresh
  rw [applyAll_recording, filter_interiorCalls, List.nil_append] at hcore
  refine ⟨pieces, congrArg Prod.snd hcore, h.flatten_eq, h.whole, fun out hout => ?_⟩
  obtain ⟨whole, last, calls, -, hcalls, hfinish, hone, hblocks, hlast, hempty, hmessage⟩ :=
    h.exists_finish hB' hout
  refine ⟨whole, last, hone, hblocks, hlast, hempty, h.flatten_eq ▸ hmessage, ?_⟩
  rw [hfinish, hcore, applyAll_recording, hcalls, List.filter_append, filter_interiorCalls,
    interiorCalls_append, h.flatten_eq, Nat.zero_add, List.append_assoc]
  rfl

end

end StreamDigest
