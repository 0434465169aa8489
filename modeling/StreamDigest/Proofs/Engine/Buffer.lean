import StreamDigest.Proofs.Engine.Residual

/-!
# What a buffer does with a message

`Buffer.Holds size m b` ties a buffer of `size` bytes to the message `m` that
went through it: the count is the length of `m`, and the bytes in use are the
end that `m` holds back. Under it `push` and `close` never break off, and the
calls that they make are interior calls for pieces that follow each other
(`interiorCalls`), each piece starting where the one before it ends.
-/

namespace StreamDigest

/-! ## Calls for pieces that follow each other -/

/-- The interior calls for consecutive pieces of a message, the first of them
with `prior` bytes before it. -/
def interiorCalls : Nat → List Bytes → List Call
  | _, [] => []
  | prior, piece :: pieces => .interior prior piece :: interiorCalls (prior + piece.length) pieces

@[simp] theorem interiorCalls_nil (prior : Nat) : interiorCalls prior [] = [] := rfl

theorem interiorCalls_append (prior : Nat) (ps qs : List Bytes) :
    interiorCalls prior (ps ++ qs) =
      interiorCalls prior ps ++ interiorCalls (prior + ps.flatten.length) qs := by
  induction ps generalizing prior with
  | nil => simp
  | cons p ps ih => simp [interiorCalls, ih, Nat.add_assoc]

/-- A call among those for consecutive pieces is for one of the pieces, and the
piece lies within the bytes of all of them. -/
theorem mem_interiorCalls {prior : Nat} {ps : List Bytes} {c : Call}
    (h : c ∈ interiorCalls prior ps) :
    ∃ at' piece, c = .interior at' piece ∧ piece ∈ ps ∧ prior ≤ at' ∧
      at' + piece.length ≤ prior + ps.flatten.length := by
  induction ps generalizing prior with
  | nil => cases h
  | cons p ps ih =>
    rw [interiorCalls, List.mem_cons] at h
    rw [List.flatten_cons, List.length_append]
    rcases h with rfl | h
    · exact ⟨prior, p, rfl, List.mem_cons_self, Nat.le_refl _, by omega⟩
    · obtain ⟨at', piece, rfl, hm, hle, hend⟩ := ih h
      exact ⟨at', piece, rfl, List.mem_cons_of_mem _ hm, by omega, by omega⟩

/-- A byte string as a list of pieces that are not empty: itself or none. -/
def asPiece (bs : Bytes) : List Bytes := if bs = [] then [] else [bs]

@[simp] theorem flatten_asPiece (bs : Bytes) : (asPiece bs).flatten = bs := by
  unfold asPiece
  split
  · rename_i h; rw [h]; rfl
  · simp

theorem length_asPiece_le (bs : Bytes) : (asPiece bs).length ≤ 1 := by
  unfold asPiece
  split <;> simp

theorem mem_asPiece {bs p : Bytes} : p ∈ asPiece bs ↔ p = bs ∧ p ≠ [] := by
  unfold asPiece
  split
  · rename_i h; subst h; simp
  · rename_i h
    rw [List.mem_singleton]
    constructor
    · rintro rfl; exact ⟨rfl, h⟩
    · exact fun hp => hp.1

namespace Buffer

/-- The buffer of `size` bytes contains what the message `m` holds back. -/
structure Holds (size : Nat) (m : Bytes) (b : Buffer) : Prop where
  size_eq : b.bytes.length = size
  total_eq : b.total = m.length
  held_eq : b.bytes.take (residual m.length size) = heldBack size m

theorem holds_empty (size : Nat) : (empty size).Holds size [] where
  size_eq := Bytes.length_zeros size
  total_eq := rfl
  held_eq := by simp

namespace Holds

variable {size : Nat} {m : Bytes} {b : Buffer}

theorem fill_eq (h : b.Holds size m) : b.fill = residual m.length size := by
  rw [fill, Buffer.size, h.size_eq, h.total_eq]

theorem held (hs : 0 < size) (h : b.Holds size m) : b.held = .ok (heldBack size m) := by
  have hle : b.fill ≤ b.bytes.length := by
    rw [h.fill_eq, h.size_eq]
    exact residual_le_size hs m.length
  rw [Buffer.held, Bytes.cut_eq hle, except_ok_bind, h.fill_eq, h.held_eq]
  rfl

/-- A buffer in use is completed and handed on as a whole; an empty one is
left alone. Either way input remains. -/
theorem flush (hs : 0 < size) (h : b.Holds size m) {data : Bytes}
    (hd : size - residual m.length size < data.length) :
    ∃ completed bytes rest,
      b.flush data = .ok (interiorCalls (handedOn size m).length completed, bytes, rest) ∧
      bytes.length = size ∧ completed.length ≤ 1 ∧ (∀ p ∈ completed, p.length = size) ∧
      completed.flatten ++ rest = heldBack size m ++ data ∧ rest ≠ [] := by
  have hle := residual_le_size hs m.length
  have hlen := length_heldBack size m
  unfold Buffer.flush
  rw [h.fill_eq]
  split
  · rename_i hpos
    have hroom : (data.take (size - residual m.length size)).length =
        size - residual m.length size := by
      rw [List.length_take]; omega
    have hbytes : b.bytes.take (residual m.length size) ++
        data.take (size - residual m.length size) ++ b.bytes.drop size =
        heldBack size m ++ data.take (size - residual m.length size) := by
      rw [h.held_eq, List.drop_of_length_le h.size_eq.le, List.append_nil]
    have hsize : (heldBack size m ++ data.take (size - residual m.length size)).length = size := by
      rw [List.length_append, hroom, hlen]; omega
    refine ⟨[heldBack size m ++ data.take (size - residual m.length size)], _,
      data.drop (size - residual m.length size), ?_, hsize, Nat.le_refl 1, ?_, ?_, ?_⟩
    · rw [Buffer.size, h.size_eq, h.total_eq, lengthSub_eq hle, except_ok_bind,
        Bytes.cut_eq (Nat.le_of_lt hd), except_ok_bind]
      dsimp only
      rw [Bytes.overwrite_eq hle h.size_eq.ge hroom, except_ok_bind, hbytes,
        lengthSub_eq (residual_le_total m.length size), except_ok_bind, length_handedOn]
      rfl
    · intro p hp
      rw [List.mem_singleton.1 hp, hsize]
    · rw [List.flatten_singleton, List.append_assoc, List.take_append_drop]
    · intro h0
      rw [List.drop_eq_nil_iff] at h0
      omega
  · rename_i hpos
    have hm : heldBack size m = [] := List.eq_nil_of_length_eq_zero (by omega)
    refine ⟨[], b.bytes, data, rfl, h.size_eq, Nat.zero_le 1, by simp, by simp [hm], ?_⟩
    intro h0
    rw [h0, List.length_nil] at hd
    omega

end Holds

/-- Of the rest of the input, the whole buffers are handed on and what the rest
holds back is kept. -/
theorem passOn_eq {size : Nat} (hs : 0 < size) {bytes rest : Bytes} {total : Nat}
    (hb : bytes.length = size) (ht : rest.length ≤ total) :
    ∃ bytes', passOn bytes total rest =
        .ok (interiorCalls (total - rest.length) (asPiece (handedOn size rest)), bytes') ∧
      bytes'.length = size ∧ bytes'.take (residual rest.length size) = heldBack size rest := by
  have hlen := length_heldBack size rest
  have hle := length_heldBack_le hs rest
  refine ⟨heldBack size rest ++ bytes.drop (heldBack size rest).length, ?_, ?_, ?_⟩
  · unfold passOn
    rw [hb, lengthSub_eq (residual_le_total rest.length size), except_ok_bind,
      cut_handedOn, except_ok_bind]
    dsimp only
    rw [Bytes.overwrite_eq (Nat.zero_le _) (by omega) (Nat.sub_zero _).symm, except_ok_bind,
      List.take_zero, List.nil_append]
    by_cases h0 : handedOn size rest = []
    · rw [h0]
      rfl
    · rw [if_neg (by simpa using h0), lengthSub_eq ht, except_ok_bind, asPiece, if_neg h0]
      rfl
  · rw [List.length_append, List.length_drop]
    omega
  · rw [← hlen, List.take_left]

/-- The pieces that a buffer of `size` bytes hands on when `data` arrives behind
the message `m`: the completed buffer, if it was in use, then the whole buffers
of the rest, if there are any. -/
structure HandsOn (size : Nat) (m data : Bytes) (completed bulk : List Bytes) : Prop where
  flatten_eq : handedOn size m ++ (completed ++ bulk).flatten = handedOn size (m ++ data)
  completed_le : completed.length ≤ 1
  bulk_le : bulk.length ≤ 1
  completed_size : ∀ p ∈ completed, p.length = size
  bulk_whole : ∀ p ∈ bulk, p ≠ [] ∧ size ∣ p.length

namespace HandsOn

variable {size : Nat} {m data : Bytes} {completed bulk : List Bytes}

theorem whole (hs : 0 < size) (h : HandsOn size m data completed bulk) :
    ∀ p ∈ completed ++ bulk, p ≠ [] ∧ size ∣ p.length := by
  intro p hp
  rcases List.mem_append.1 hp with hp | hp
  · have hl := h.completed_size p hp
    refine ⟨fun h0 => ?_, hl ▸ Nat.dvd_refl _⟩
    rw [h0, List.length_nil] at hl
    omega
  · exact h.bulk_whole p hp

/-- Each call ends within the new data, and before its end. -/
theorem followed (hs : 0 < size) (h : HandsOn size m data completed bulk) {at' : Nat}
    {piece : Bytes}
    (hc : .interior at' piece ∈ interiorCalls (handedOn size m).length (completed ++ bulk)) :
    m.length ≤ at' + piece.length ∧ at' + piece.length < m.length + data.length := by
  obtain ⟨_, _, heq, hp, hle, hend⟩ := mem_interiorCalls hc
  cases heq
  have hflat := congrArg List.length h.flatten_eq
  rw [List.length_append] at hflat
  obtain ⟨hne, hdvd⟩ := h.whole hs piece hp
  have hpos := List.length_pos_of_ne_nil hne
  have hsize := Nat.le_of_dvd hpos hdvd
  have hold := length_handedOn_add size m
  have hnew := length_handedOn_add size (m ++ data)
  have hheld := length_heldBack_le hs m
  have hback : 0 < (heldBack size (m ++ data)).length := by
    refine List.length_pos_of_ne_nil fun h0 => ?_
    rw [h0, heldBack_eq_nil.1 h0, handedOn_nil, List.length_nil] at hnew
    rw [heldBack_eq_nil.1 h0, handedOn_nil, List.length_nil] at hflat
    omega
  rw [List.length_append] at hnew
  omega

end HandsOn

namespace Holds

variable {size : Nat} {m : Bytes} {b : Buffer}

/-- Data that fits is stored, and nothing is handed on. -/
theorem push_fits (hs : 0 < size) (h : b.Holds size m) {data : Bytes}
    (hd : data.length ≤ size - residual m.length size) :
    ∃ b', b.push data = .ok ([], b') ∧ b'.Holds size (m ++ data) ∧
      handedOn size (m ++ data) = handedOn size m := by
  have hle := residual_le_size hs m.length
  have hlen := length_heldBack size m
  obtain ⟨hback, hfront⟩ := heldBack_grow hs m
    (show (heldBack size m ++ data).length ≤ size by rw [List.length_append]; omega)
  refine ⟨⟨heldBack size m ++ data ++ b.bytes.drop (residual m.length size + data.length),
    m.length + data.length⟩, ?_, ⟨?_, (List.length_append).symm, ?_⟩, hfront⟩
  · unfold Buffer.push
    rw [Buffer.size, h.size_eq, h.fill_eq, h.total_eq, lengthSub_eq hle, except_ok_bind, if_pos hd,
      Bytes.overwrite_eq (by omega) (by rw [h.size_eq]; omega) (by omega), except_ok_bind,
      h.held_eq]
    rfl
  · have := h.size_eq
    simp only [List.length_append, List.length_drop]
    omega
  · have hres : residual (m ++ data).length size = (heldBack size m ++ data).length := by
      rw [← length_heldBack, hback]
    rw [hres, List.take_left, hback]

/-- Data that does not fit completes the buffer if it is in use; of what is left,
the whole buffers are handed on. -/
theorem push_over (hs : 0 < size) (h : b.Holds size m) {data : Bytes}
    (hd : size - residual m.length size < data.length) :
    ∃ completed bulk b',
      b.push data = .ok (interiorCalls (handedOn size m).length (completed ++ bulk), b') ∧
      b'.Holds size (m ++ data) ∧ HandsOn size m data completed bulk := by
  obtain ⟨completed, bytes, rest, hflush, hbytes, hc1, hcs, hrest, hne⟩ := h.flush hs hd
  have hsplit : m ++ data = handedOn size m ++ completed.flatten ++ rest := by
    rw [List.append_assoc, hrest, ← List.append_assoc, handedOn_append_heldBack]
  have hwhole : size ∣ (handedOn size m ++ completed.flatten).length := by
    rw [List.length_append]
    refine Nat.dvd_add (dvd_length_handedOn size m) ?_
    rcases completed with _ | ⟨p, _ | ⟨q, ps⟩⟩
    · exact Nat.dvd_zero size
    · rw [List.flatten_singleton, hcs p List.mem_cons_self]
    · simp only [List.length_cons] at hc1
      omega
  have hback : heldBack size (m ++ data) = heldBack size rest := by
    rw [hsplit, heldBack_append hs _ hwhole hne]
  have htotal : m.length + data.length =
      (handedOn size m ++ completed.flatten).length + rest.length := by
    rw [← List.length_append, ← List.length_append, hsplit]
  obtain ⟨bytes', hpass, hbytes', htake⟩ :=
    passOn_eq hs hbytes (show rest.length ≤ m.length + data.length by omega)
  refine ⟨completed, asPiece (handedOn size rest), ⟨bytes', m.length + data.length⟩, ?_,
    ⟨hbytes', (List.length_append).symm, ?_⟩, ⟨?_, hc1, length_asPiece_le _, hcs, ?_⟩⟩
  · unfold Buffer.push
    rw [Buffer.size, h.size_eq, h.fill_eq, h.total_eq,
      lengthSub_eq (residual_le_size hs m.length), except_ok_bind, if_neg (Nat.not_le_of_lt hd),
      hflush, except_ok_bind]
    dsimp only
    rw [hpass, except_ok_bind, interiorCalls_append,
      show m.length + data.length - rest.length =
        (handedOn size m ++ completed.flatten).length by omega, List.length_append]
    rfl
  · have hres : residual (m ++ data).length size = residual rest.length size := by
      rw [← length_heldBack, hback, length_heldBack]
    rw [hres, htake, hback]
  · rw [List.flatten_append, flatten_asPiece, ← List.append_assoc, hsplit,
      handedOn_append hs _ hwhole hne]
  · intro p hp
    obtain ⟨rfl, hp0⟩ := mem_asPiece.1 hp
    exact ⟨hp0, dvd_length_handedOn size rest⟩

/-- Taking in `data` never breaks off: the buffer then contains what the longer
message holds back, and what became whole is handed on. -/
theorem push (hs : 0 < size) (h : b.Holds size m) (data : Bytes) :
    ∃ completed bulk b',
      b.push data =
        .ok (interiorCalls (handedOn size m).length (completed ++ bulk), b') ∧
      b'.Holds size (m ++ data) ∧ HandsOn size m data completed bulk := by
  by_cases hd : data.length ≤ size - residual m.length size
  · obtain ⟨b', hpush, hb', hfront⟩ := h.push_fits hs hd
    refine ⟨[], [], b', hpush, hb', ?_, Nat.zero_le 1, Nat.zero_le 1, by simp, by simp⟩
    simpa using hfront.symm
  · exact h.push_over hs (Nat.lt_of_not_ge hd)

/-- Ending the input never breaks off: the held bytes go out in whole blocks,
with what the message holds back of a block as the last. -/
theorem close {block : Nat} (hs : 0 < size) (hb : 0 < block) (hd : block ∣ size)
    (h : b.Holds size m) :
    b.close block =
      .ok (interiorCalls (handedOn size m).length (asPiece (handedOn block (heldBack size m))) ++
        [.final (handedOn block m).length (heldBack block m)]) := by
  have hback := heldBack_heldBack hb hd m
  have hlen := length_handedOn_add block m
  have hlen' := length_handedOn_add size m
  unfold Buffer.close
  rw [h.held hs, except_ok_bind, residualChecked_eq hb, except_ok_bind,
    lengthSub_eq (residual_le_total _ block), except_ok_bind, cut_handedOn, except_ok_bind,
    h.total_eq]
  dsimp only
  rw [hback, lengthSub_eq (by omega), except_ok_bind,
    show m.length - (heldBack block m).length = (handedOn block m).length by omega]
  by_cases h0 : handedOn block (heldBack size m) = []
  · rw [h0]
    rfl
  · rw [if_neg (by simpa using h0), lengthSub_eq (by omega), except_ok_bind, asPiece, if_neg h0,
      show m.length - (heldBack size m).length = (handedOn size m).length by omega]
    rfl

end Holds

end Buffer

end StreamDigest
