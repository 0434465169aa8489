import StreamDigest.Proofs.Poly1305.Tag

/-!
# Verdicts on tags

A tag is computed in one piece, in parts or over a given output, and every way
comes to the standard's (`Tag.lean`). Verification compares a candidate with it
and its answer is `verdict`: the tag is accepted, and everything else fails in
the same way, a candidate of another length as well.
-/

namespace StreamDigest.OnetimeAuth

open Poly1305

/-- What verification says about a candidate for the tag `t`. -/
def verdict (t : Mac) (candidate : Bytes) : Except Error Unit :=
  if candidate.length = 16 ∧ candidate = t.toBytes then .ok () else .error .authentication

variable {t : Mac}

theorem checkMac_eq {candidate : Bytes} (h : candidate.length = 16) :
    checkMac candidate t.toBytes = verdict t candidate := by
  simp only [checkMac, verdict, h, true_and]

/-- An authenticator accepts what it would compute and nothing else. -/
theorem verify_eq {a : OnetimeAuth} (h : a.finalize = .ok t.toBytes) (candidate : Bytes) :
    a.verify candidate = verdict t candidate := by
  have hverify : a.verify candidate = if candidate.length = 16 then
      checkMac candidate t.toBytes else .error .authentication := by
    rw [verify, h]
    rfl
  rw [hverify]
  by_cases hlen : candidate.length = 16
  · rw [if_pos hlen, checkMac_eq hlen]
  · rw [if_neg hlen, verdict, if_neg fun hboth => hlen hboth.1]

theorem computeAndVerify_eq (candidate : Bytes) (key : Key) (m : Bytes) :
    computeAndVerify candidate key m =
      (new key >>= (·.updateAll [m])) >>= (·.verify candidate) := by
  rw [computeAndVerify]
  simp [updateAll]

theorem verifyMac_eq {key : Key} {m : Bytes}
    (h : authenticate key m (Bytes.zeros 16) = .ok () t.toBytes) (candidate : Mac) :
    verifyMac candidate key m = verdict t candidate.toBytes := by
  have hcomputed : (authenticate key m).onZeros tagLen = .ok t.toBytes := by
    have hrun : authenticate key m (Bytes.zeros tagLen) = .ok () t.toBytes := h
    rw [InPlace.onZeros, EStateM.run, hrun]
  rw [verifyMac, hcomputed, except_ok_bind, checkMac_eq candidate.length_toBytes]

/-- **One tag for a message, and no other is accepted**, whichever way the tag is computed
and the candidate is verified, and in whatever parts the message is given. -/
theorem verdict_exact (key : Key) {m : Bytes} (hm : m.length < 2 ^ 64) :
    ∃ t : Mac, t.toBytes = Standard.tag key m ∧
      compute key m = .ok t.toBytes ∧
      (∀ out : Mac, authenticate key m out.toBytes = .ok () t.toBytes) ∧
      (∀ candidate, computeAndVerify candidate key m = verdict t candidate) ∧
      (∀ candidate : Mac, verifyMac candidate key m = verdict t candidate.toBytes) ∧
      ∀ parts : List Bytes, parts.flatten = m →
        ∃ a, new key >>= (·.updateAll parts) = .ok a ∧
          (∀ out : Mac, a.stream.finish out.toBytes = .ok () t.toBytes) ∧
          a.finalize = .ok t.toBytes ∧
          ∀ candidate, a.verify candidate = verdict t candidate := by
  have hmax : m.length ≤ backend.maxInput := Nat.le_of_lt_succ hm
  obtain ⟨t, ht⟩ : ∃ t : Mac, t.toBytes = Standard.tag key m :=
    FixedBytes.exists_toBytes (Bytes.length_toLE 16 _)
  have hparts : ∀ parts : List Bytes, parts.flatten = m →
      ∃ a, new key >>= (·.updateAll parts) = .ok a ∧
        (∀ out : Mac, a.stream.finish out.toBytes = .ok () t.toBytes) ∧
        a.finalize = .ok t.toBytes := by
    rintro parts rfl
    obtain ⟨a, pieces, hnew, ha⟩ := exists_absorbed key parts hmax
    rw [ht]
    exact ⟨a, hnew, fun out => finish_of_absorbed ha out.length_toBytes, finalize_of_absorbed ha⟩
  have hauthenticate : ∀ out : Bytes, out.length = 16 →
      authenticate key m out = .ok () t.toBytes := by
    intro out hout
    rw [ht, authenticate_eq key m out hmax hout]
  refine ⟨t, ht, ?_, fun out => hauthenticate _ out.length_toBytes, ?_,
    verifyMac_eq (hauthenticate _ (Bytes.length_zeros 16)), ?_⟩
  · rw [ht, compute_eq key m hmax]
  · intro candidate
    obtain ⟨a, hnew, -, hfinalize⟩ := hparts [m] List.flatten_singleton
    rw [computeAndVerify_eq, hnew, except_ok_bind, verify_eq hfinalize]
  · intro parts hm
    obtain ⟨a, hnew, hfinish, hfinalize⟩ := hparts parts hm
    exact ⟨a, hnew, hfinish, hfinalize, verify_eq hfinalize⟩

/-- A tag is accepted in one piece and in parts; its front and itself with a zero behind it
are not. -/
theorem verdict_exact_of_neighbours :
    ∃ (key : Key) (m tag : Bytes),
      key = #v[0x01, 0x02, 0x03, 0x04, 0x05, 0x06, 0x07, 0x08, 0x09, 0x0a, 0x0b, 0x0c,
        0x0d, 0x0e, 0x0f, 0x10, 0x11, 0x12, 0x13, 0x14, 0x15, 0x16, 0x17, 0x18,
        0x19, 0x1a, 0x1b, 0x1c, 0x1d, 0x1e, 0x1f, 0x20] ∧
      m = [0x80, 0xff, 0x00] ∧
      tag = [0x74, 0x24, 0x93, 0x15, 0x18, 0x1b, 0x9c, 0x1e, 0x22, 0x25, 0xa6, 0x28,
        0x2c, 0x2f, 0xb0, 0x32] ∧
      m.length < 2 ^ 64 ∧ computeAndVerify tag key m = .ok () ∧
      computeAndVerify (tag.take 15) key m = .error .authentication ∧
      computeAndVerify (tag ++ [0]) key m = .error .authentication ∧
      ∃ a, new key >>= (·.updateAll [m.take 1, [], m.drop 1]) = .ok a ∧ a.verify tag = .ok () := by
  refine ⟨_, _, _, rfl, rfl, rfl, by decide, ?_⟩
  obtain ⟨t, ht, -, -, hverify, -, hparts⟩ := verdict_exact
    #v[0x01, 0x02, 0x03, 0x04, 0x05, 0x06, 0x07, 0x08, 0x09, 0x0a, 0x0b, 0x0c,
      0x0d, 0x0e, 0x0f, 0x10, 0x11, 0x12, 0x13, 0x14, 0x15, 0x16, 0x17, 0x18,
      0x19, 0x1a, 0x1b, 0x1c, 0x1d, 0x1e, 0x1f, 0x20]
    (show ([0x80, 0xff, 0x00] : Bytes).length < 2 ^ 64 by decide)
  have htag : t.toBytes = [0x74, 0x24, 0x93, 0x15, 0x18, 0x1b, 0x9c, 0x1e, 0x22, 0x25, 0xa6,
      0x28, 0x2c, 0x2f, 0xb0, 0x32] := by
    rw [ht]
    decide +kernel
  obtain ⟨a, hnew, -, -, ha⟩ := hparts [[0x80], [], [0xff, 0x00]] rfl
  refine ⟨?_, ?_, ?_, a, hnew, ?_⟩
  · rw [hverify, verdict, htag]
    rfl
  · rw [hverify, verdict, htag]
    rfl
  · rw [hverify, verdict, htag]
    rfl
  · rw [ha, verdict, htag]
    rfl

end StreamDigest.OnetimeAuth
