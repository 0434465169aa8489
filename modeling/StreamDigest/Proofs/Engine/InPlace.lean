import StreamDigest.Proofs.Engine.Run

/-!
# Operations that work on a stream where it stands

`updateInPlace` and `resetInPlace` change a stream step by step, and a failure
leaves behind what was changed until then. What they come to is said here once:
where `update` and `reset` give a stream they leave that stream
(`updateInPlace_of_update`, `resetInPlace_eq`), and a refusal comes before the
first change (`updateInPlace_refused`). On a buffer that contains what its
message holds back nothing else can happen (`updateInPlace_of_le`,
`finish_of_length`).
-/

namespace StreamDigest

variable {π σ : Type} {B : Backend π σ}

namespace Buffer

variable {b b' : Buffer} {data : Bytes} {calls : List Call}

/-- A push either stores the data or flushes the buffer and passes on the rest. -/
theorem push_cases (h : b.push data = .ok (calls, b')) :
    ∃ room, lengthSub b.size b.fill = .ok room ∧
      ((data.length ≤ room ∧ ∃ bytes,
          Bytes.overwrite b.bytes b.fill (b.fill + data.length) data = .ok bytes ∧
          calls = [] ∧ b' = ⟨bytes, b.total + data.length⟩) ∨
        (¬ data.length ≤ room ∧ ∃ flushed bytes rest passed bytes',
          b.flush data = .ok (flushed, bytes, rest) ∧
          passOn bytes (b.total + data.length) rest = .ok (passed, bytes') ∧
          calls = flushed ++ passed ∧ b' = ⟨bytes', b.total + data.length⟩)) := by
  unfold push at h
  obtain ⟨room, hroom, h⟩ := except_bind_eq_ok.1 h
  refine ⟨room, hroom, ?_⟩
  split at h
  · rename_i hfits
    obtain ⟨bytes, hbytes, h⟩ := except_bind_eq_ok.1 h
    cases h
    exact .inl ⟨hfits, bytes, hbytes, rfl, rfl⟩
  · rename_i hover
    obtain ⟨⟨flushed, bytes, rest⟩, hflush, h⟩ := except_bind_eq_ok.1 h
    obtain ⟨⟨passed, bytes'⟩, hpass, h⟩ := except_bind_eq_ok.1 h
    cases h
    exact .inr ⟨hover, flushed, bytes, rest, passed, bytes', hflush, hpass, rfl, rfl⟩

/-- A buffer that contains what its message holds back can be closed in blocks of
any size, also one that does not divide its own. -/
theorem Holds.exists_close {size block : Nat} {m : Bytes} (hs : 0 < size) (hb : 0 < block)
    (h : b.Holds size m) : ∃ calls, b.close block = .ok calls := by
  have hlen := length_handedOn_add size m
  have hblock := residual_le_total (heldBack size m).length block
  unfold Buffer.close
  rw [h.held hs, except_ok_bind, residualChecked_eq hb, except_ok_bind, lengthSub_eq hblock,
    except_ok_bind, cut_handedOn, except_ok_bind, h.total_eq]
  dsimp only
  rw [length_heldBack block, lengthSub_eq (by omega), except_ok_bind]
  split
  · exact ⟨_, rfl⟩
  · rw [lengthSub_eq (by omega)]
    exact ⟨_, rfl⟩

end Buffer

namespace Stream

variable {s s' : Stream B} {m data : Bytes}

theorem update_eq_ok : s.update data = .ok s' ↔
    s.total + data.length ≤ B.maxInput ∧ ∃ calls b', s.buffer.push data = .ok (calls, b') ∧
      s' = ⟨B.applyAll s.core calls, b'⟩ := by
  unfold update updateCalls
  split
  · rename_i hd
    rw [except_bind_eq_ok]
    constructor
    · rintro ⟨⟨calls, b'⟩, hpush, h⟩
      cases h
      exact ⟨hd, calls, b', hpush, rfl⟩
    · rintro ⟨-, calls, b', hpush, rfl⟩
      exact ⟨(calls, b'), hpush, rfl⟩
  · rename_i hd
    simp [hd, bind, Except.bind]

theorem updateInPlace_of_update (h : s.update data = .ok s') :
    updateInPlace data s = .ok () s' := by
  obtain ⟨hd, calls, b', hpush, rfl⟩ := update_eq_ok.1 h
  have hlimit : ¬ B.maxInput < s.buffer.total + data.length := Nat.not_lt.2 hd
  obtain ⟨room, hroom, hcases⟩ := Buffer.push_cases hpush
  change (updateInPlace data).run s = _
  rcases hcases with ⟨hfits, bytes, hbytes, rfl, rfl⟩ |
    ⟨hover, flushed, bytes, rest, passed, bytes', hflush, hpass, rfl, rfl⟩
  · simp [updateInPlace, MonadExcept.ofExcept, hlimit, hroom, hfits, hbytes, total, Backend.applyAll]
  · simp [updateInPlace, MonadExcept.ofExcept, hlimit, hroom, hover, hflush, hpass, total,
      Backend.applyAll_append]

theorem updateInPlace_refused (h : B.maxInput < s.total + data.length) :
    updateInPlace data s = .error (.lengthOverflow s.total data.length B.maxInput) s := by
  change (updateInPlace data).run s = _
  simp [updateInPlace, h]

/-- Within the limit the data is taken in, with the calls that become due, and the buffer
contains what the longer message holds back. -/
theorem updateInPlace_of_le (hs : 0 < B.bufferLen) (h : s.buffer.Holds B.bufferLen m)
    (hd : s.total + data.length ≤ B.maxInput) :
    ∃ calls s', s.updateCalls data = .ok (calls, s'.buffer) ∧
      s'.core = B.applyAll s.core calls ∧ s.update data = .ok s' ∧
      updateInPlace data s = .ok () s' ∧ s'.buffer.Holds B.bufferLen (m ++ data) := by
  obtain ⟨_, _, b', hpush, hb', -⟩ := h.push hs data
  have hupdate := update_eq_ok.2 ⟨hd, _, _, hpush, rfl⟩
  refine ⟨_, _, ?_, rfl, hupdate, updateInPlace_of_update hupdate, hb'⟩
  rw [updateCalls, if_pos hd, hpush]

theorem resetInPlace_eq (s : Stream B) (params : π) :
    resetInPlace params s =
      match s.reset params with
      | .ok s' => .ok () s'
      | .error e => .error e s := by
  unfold resetInPlace reset
  cases B.init params <;> rfl

theorem finish_refused {out : Bytes} (h : out.length ≠ s.digestLen) :
    s.finish out = .error (.outputLength out.length s.digestLen) out := by
  rw [finish, finishCalls, if_neg h]

theorem finish_of_length (hs : 0 < B.bufferLen) (hb : 0 < B.blockLen)
    (h : s.buffer.Holds B.bufferLen m) {out : Bytes} (hout : out.length = s.digestLen) :
    ∃ out', s.finish out = .ok () out' := by
  obtain ⟨calls, hclose⟩ := h.exists_close hs hb
  rw [finish, finishCalls, if_pos hout, hclose]
  exact ⟨_, rfl⟩

/-! ## In one step -/

theorem oneshot_of_init_error {params : π} {e : Error} (h : B.init params = .error e)
    (input out : Bytes) : oneshot B params input out = .error e out := by
  rw [oneshot, create, h]
  rfl

section
variable {params : π} {c : σ} {input : Bytes} (hc : B.init params = .ok c)
include hc

theorem oneshot_of_long (h : B.maxInput < input.length) (out : Bytes) :
    oneshot B params input out = .error (.lengthOverflow 0 input.length B.maxInput) out := by
  have hrefused : (⟨c, .empty B.bufferLen⟩ : Stream B).updateCalls input =
      .error (.lengthOverflow 0 input.length B.maxInput) := by
    rw [updateCalls]
    refine if_neg ?_
    change ¬ 0 + input.length ≤ B.maxInput
    omega
  rw [oneshot, create_eq hc, except_ok_bind, update, hrefused]
  rfl

/-- Input within the limit is taken in by a fresh stream, which is then asked. -/
theorem oneshot_of_le (hs : 0 < B.bufferLen) (h : input.length ≤ B.maxInput) :
    ∃ s : Stream B, updateInPlace input (⟨c, .empty B.bufferLen⟩ : Stream B) = .ok () s ∧
      s.buffer.Holds B.bufferLen input ∧ ∀ out, oneshot B params input out = s.finish out := by
  have hwithin : (⟨c, .empty B.bufferLen⟩ : Stream B).total + input.length ≤ B.maxInput := by
    change 0 + input.length ≤ B.maxInput
    omega
  obtain ⟨_, s, -, -, hupdate, hplace, hholds⟩ :=
    updateInPlace_of_le hs (Buffer.holds_empty B.bufferLen) hwithin
  refine ⟨s, hplace, hholds, fun out => ?_⟩
  rw [oneshot, create_eq hc, except_ok_bind, hupdate]

end

end Stream

end StreamDigest
