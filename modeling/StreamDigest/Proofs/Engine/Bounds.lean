import StreamDigest.Proofs.Engine.Session

/-!
# Every access is within its bounds

The engine cuts, overwrites, subtracts and counts blocks with operations that break
off with `Error.outOfRange` where they would leave a byte string, go below zero or
divide by it. Each of them is safe for one reason: the buffer contains what the message of its
stream holds back (`Buffer.Holds`), so that its fill, which is computed from
the count each time, is the number of bytes in use. Creating, resetting, feeding
and copying keep that, and under it neither an update nor a finish can break
off, whatever data or output it is given.

The count itself is a natural number here. A word of 64 bits does as well: for a
limit that is one, a checked sum and a comparison refuse the same updates
(`countWords_eq_some`, `Stream.updateInPlace_countWords`).
-/

namespace StreamDigest

variable {π σ : Type} {B : Backend π σ}

/-! ## The count as a word -/

/-- The count after `requested` more bytes, as words of 64 bits: their sum, unless it
wraps or is beyond the limit. -/
def countWords (limit total requested : BitVec 64) : Option (BitVec 64) :=
  if total.uaddOverflow requested then none
  else if total + requested ≤ limit then some (total + requested)
  else none

/-- The exact sum decides: the limit is a word, so that a sum that wraps is beyond it. -/
theorem countWords_eq_some {limit total requested count : BitVec 64} :
    countWords limit total requested = some count ↔
      total.toNat + requested.toNat ≤ limit.toNat ∧
        count.toNat = total.toNat + requested.toNat := by
  have hlimit := limit.isLt
  unfold countWords
  by_cases hfits : total.toNat + requested.toNat < 2 ^ 64
  · rw [if_neg (by simpa [BitVec.uaddOverflow] using hfits)]
    simp only [BitVec.le_def, BitVec.toNat_add_of_lt hfits, Option.ite_none_right_eq_some,
      Option.some.injEq, ← BitVec.toNat_inj]
    exact and_congr_right fun _ => eq_comm
  · rw [if_pos (by simpa [BitVec.uaddOverflow] using hfits)]
    constructor
    · intro h
      cases h
    · rintro ⟨hle, -⟩
      omega

/-! ## What can break off -/

/-- The operation does not break off: it succeeds, or it refuses and says why. -/
def InBounds {α β : Type} (r : EStateM.Result Error β α) : Prop :=
  ∀ left, r ≠ .error .outOfRange left

namespace Stream

variable {s : Stream B} {m : Bytes}

/-- With limit, count and length of the data as words, an update counts what the words
count, and is refused where they give nothing. -/
theorem updateInPlace_countWords (hs : 0 < B.bufferLen) (h : s.buffer.Holds B.bufferLen m)
    {data : Bytes} {limit total requested : BitVec 64} (hlimit : limit.toNat = B.maxInput)
    (htotal : total.toNat = s.total) (hrequested : requested.toNat = data.length) :
    (∀ count, countWords limit total requested = some count →
      ∃ s', updateInPlace data s = .ok () s' ∧ s'.total = count.toNat) ∧
    (countWords limit total requested = none → updateInPlace data s =
      .error (.lengthOverflow s.total data.length B.maxInput) s) := by
  constructor
  · intro count hcount
    rw [countWords_eq_some, hlimit, htotal, hrequested] at hcount
    obtain ⟨hd, hcount⟩ := hcount
    obtain ⟨_, s', -, -, -, hplace, hnew⟩ := updateInPlace_of_le hs h hd
    refine ⟨s', hplace, ?_⟩
    rw [hcount, Stream.total, Stream.total, hnew.total_eq, h.total_eq, List.length_append]
  · intro hnone
    refine updateInPlace_refused (Nat.lt_of_not_ge fun hd => ?_)
    rw [← hlimit, ← htotal, ← hrequested] at hd
    have hsome : countWords limit total requested = some (total + requested) :=
      countWords_eq_some.2 ⟨hd, BitVec.toNat_add_of_lt (hd.trans_lt limit.isLt)⟩
    rw [hnone] at hsome
    cases hsome

theorem inBounds_updateInPlace (hs : 0 < B.bufferLen) (h : s.buffer.Holds B.bufferLen m)
    (data : Bytes) : InBounds (updateInPlace data s) := by
  intro left hbreaks
  by_cases hd : s.total + data.length ≤ B.maxInput
  · obtain ⟨_, _, -, -, -, hplace, -⟩ := updateInPlace_of_le hs h hd
    rw [hplace] at hbreaks
    cases hbreaks
  · rw [updateInPlace_refused (Nat.lt_of_not_ge hd)] at hbreaks
    cases hbreaks

theorem inBounds_finish (hs : 0 < B.bufferLen) (hb : 0 < B.blockLen)
    (h : s.buffer.Holds B.bufferLen m) (out : Bytes) : InBounds (s.finish out) := by
  intro left hbreaks
  by_cases hout : out.length = s.digestLen
  · obtain ⟨_, hfinish⟩ := finish_of_length hs hb h hout
    rw [hfinish] at hbreaks
    cases hbreaks
  · rw [finish_refused hout] at hbreaks
    cases hbreaks

end Stream

/-- **The buffer of a stream, and what it is good for.** A client carries each
of its streams on where it stands; `run` keeps with it the message that it took
in since it was created or reset. At every point the buffer has its full size and
holds the end of the message, at least one byte if there is any and at most one
buffer, and neither an update nor a finish leaves the bounds of anything. -/
theorem inBounds_of_session (hB : B.Aligned) (actions : List (Action π)) :
    session B actions = (run B actions).map (·.stream) ∧
    ∀ t ∈ run B actions,
      t.stream.buffer.bytes.length = B.bufferLen ∧
      t.stream.total = t.message.length ∧
      t.message.length ≤ B.maxInput ∧
      (∃ held, t.stream.buffered = .ok held ∧
        held = t.message.drop (t.message.length - residual t.message.length B.bufferLen) ∧
        held.length = residual t.message.length B.bufferLen ∧
        (t.message ≠ [] → held ≠ [] ∧ held.length ≤ B.bufferLen)) ∧
      (∀ data, InBounds (Stream.updateInPlace data t.stream)) ∧
      ∀ out, InBounds (t.stream.finish out) := by
  have hs := hB.bufferLen_pos
  refine ⟨session_eq_run hs actions, fun t ht => ?_⟩
  obtain ⟨pieces, -, h⟩ := sound_of_mem_run hB ht
  refine ⟨h.holds.size_eq, h.total, h.within,
    ⟨heldBack B.bufferLen t.message, h.buffered hB, rfl, length_heldBack _ _, fun hm => ?_⟩,
    Stream.inBounds_updateInPlace hs h.holds, Stream.inBounds_finish hs hB.blockLen_pos h.holds⟩
  exact ⟨fun h0 => hm (heldBack_eq_nil.1 h0), length_heldBack_le hs _⟩

/-- Two buffers' worth of input and the refusal of more: the full second buffer
is held. -/
theorem inBounds_of_probe_session :
    (Probe.backend .ghash .m128 100).Aligned ∧
    ∃ s ∈ session (Probe.backend .ghash .m128 100)
        [.create 8, .update 0 (Bytes.zeros 40), .update 0 (Bytes.zeros 24),
          .update 0 (Bytes.zeros 50)],
      s.total = 64 ∧ s.buffered = .ok (Bytes.zeros 32) ∧
      InBounds (Stream.updateInPlace (Bytes.zeros 36) s) ∧ InBounds (s.finish (Bytes.zeros 8)) := by
  have hB : (Probe.backend .ghash .m128 100).Aligned := ⟨by decide, by decide, by decide⟩
  obtain ⟨t, ht, hm⟩ : ∃ t, (run (Probe.backend .ghash .m128 100)
      [.create 8, .update 0 (Bytes.zeros 40), .update 0 (Bytes.zeros 24),
        .update 0 (Bytes.zeros 50)])[0]? = some t ∧ t.message = Bytes.zeros 64 := ⟨_, rfl, rfl⟩
  obtain ⟨hsession, hall⟩ := inBounds_of_session hB
    [.create 8, .update 0 (Bytes.zeros 40), .update 0 (Bytes.zeros 24), .update 0 (Bytes.zeros 50)]
  obtain ⟨-, htotal, -, ⟨held, hheld, rfl, -⟩, hupdate, hfinish⟩ := hall t (List.mem_of_getElem? ht)
  rw [hm] at htotal hheld
  refine ⟨hB, t.stream, ?_, htotal, hheld, hupdate _, hfinish _⟩
  rw [hsession]
  exact List.mem_map_of_mem (List.mem_of_getElem? ht)

end StreamDigest
