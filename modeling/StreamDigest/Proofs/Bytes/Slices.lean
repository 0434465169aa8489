import Mathlib
import StreamDigest.Bytes.Checked
import StreamDigest.Bytes.Fixed

/-!
# Slices of byte strings

The checked operations succeed within their bounds (`cut_eq`, `overwrite_eq`,
`lengthSub_eq`), so a proof about code written with them follows the values and
leaves the bounds as arithmetic. `blocks` and `segments` are governed by one
equation each (`blocks_cons`, `segments_cons`): the first piece and the pieces
of the rest.
-/

namespace StreamDigest

theorem except_ok_bind {ε α β : Type} (a : α) (f : α → Except ε β) :
    (Except.ok a >>= f) = f a := rfl

theorem except_bind_eq_ok {ε α β : Type} {x : Except ε α} {f : α → Except ε β} {b : β} :
    (x >>= f) = .ok b ↔ ∃ a, x = .ok a ∧ f a = .ok b := by
  cases x with
  | error e => simp [bind, Except.bind]
  | ok a => simp [except_ok_bind]

theorem lengthSub_eq {a b : Nat} (h : b ≤ a) : lengthSub a b = .ok (a - b) := if_pos h

namespace Bytes

@[simp] theorem length_zeros (n : Nat) : (zeros n).length = n := List.length_replicate

theorem cut_eq {n : Nat} {bs : Bytes} (h : n ≤ bs.length) :
    cut n bs = .ok (bs.take n, bs.drop n) := if_pos h

theorem overwrite_eq {bs src : Bytes} {start stop : Nat} (h : start ≤ stop)
    (hs : stop ≤ bs.length) (hl : src.length = stop - start) :
    overwrite bs start stop src = .ok (bs.take start ++ src ++ bs.drop stop) :=
  if_pos ⟨h, hs, hl⟩

theorem padTo_of_length {n : Nat} {bs : Bytes} (h : n ≤ bs.length) : padTo n bs = bs := by
  simp [padTo, zeros, Nat.sub_eq_zero_of_le h]

theorem length_padTo {n : Nat} {bs : Bytes} (h : bs.length ≤ n) : (padTo n bs).length = n := by
  simp only [padTo, List.length_append, length_zeros]
  omega

/-- At a given length the zeros filled in tell nothing. -/
theorem padTo_inj {n : Nat} {as bs : Bytes} (hlen : as.length = bs.length)
    (h : padTo n as = padTo n bs) : as = bs := List.append_inj_left h hlen

/-- A slice filled up is what stands there, with zeros behind the end. -/
theorem padTo_take_drop (n k : Nat) (bs : Bytes) :
    padTo n ((bs.drop k).take n) = (List.range n).map fun j => bs.getD (k + j) 0 := by
  refine List.ext_getElem ?_ fun j hj hj' => ?_
  · rw [length_padTo (List.length_take_le n _), List.length_map, List.length_range]
  · rw [List.length_map, List.length_range] at hj'
    simp only [padTo, zeros, List.getElem_append, List.length_take, List.length_drop,
      List.getElem_take, List.getElem_drop, List.getElem_replicate, List.getElem_map,
      List.getElem_range]
    split_ifs with h
    · rw [List.getD_eq_getElem _ _ (by omega)]
    · rw [List.getD_eq_default _ _ (by omega)]

/-- Byte strings with the same slices of `w` bytes are the same. -/
theorem eq_of_slices {w n : Nat} {as bs : Bytes} (ha : as.length = n * w)
    (hb : bs.length = n * w) (h : ∀ i < n, (as.drop (i * w)).take w = (bs.drop (i * w)).take w) :
    as = bs := by
  induction n generalizing as bs with
  | zero =>
    rw [Nat.zero_mul] at ha hb
    rw [List.eq_nil_of_length_eq_zero ha, List.eq_nil_of_length_eq_zero hb]
  | succ n ih =>
    rw [Nat.succ_mul] at ha hb
    have hhead : as.take w = bs.take w := by simpa using h 0 n.succ_pos
    have htail : as.drop w = bs.drop w := by
      refine ih (by rw [List.length_drop]; omega) (by rw [List.length_drop]; omega) fun i hi => ?_
      have hslice := h (i + 1) (Nat.succ_lt_succ hi)
      rw [Nat.succ_mul, Nat.add_comm] at hslice
      rwa [List.drop_drop, List.drop_drop]
    rw [← List.take_append_drop w as, hhead, htail, List.take_append_drop]

/-! ## Whole blocks -/

theorem blocks_of_lt {n : Nat} {bs : Bytes} (h : bs.length < n) : blocks n bs = [] := by
  rw [blocks, Nat.div_eq_of_lt h, pieces]

theorem length_pieces (n k : Nat) (bs : Bytes) : (pieces n k bs).length = k := by
  induction k generalizing bs with
  | zero => rfl
  | succ k ih => rw [pieces, List.length_cons, ih]

/-- The pieces by their index. -/
theorem pieces_eq_map (n k : Nat) (bs : Bytes) :
    pieces n k bs = (List.range k).map fun i => (bs.drop (n * i)).take n := by
  induction k generalizing bs with
  | zero => rfl
  | succ k ih =>
    rw [pieces, ih, List.range_succ_eq_map, List.map_cons, List.map_map]
    simp [Function.comp_def, Nat.mul_succ, Nat.add_comm]

theorem mem_pieces {n k : Nat} {bs piece : Bytes} :
    piece ∈ pieces n k bs ↔ ∃ i < k, (bs.drop (n * i)).take n = piece := by
  rw [pieces_eq_map, List.mem_map]
  simp only [List.mem_range]

theorem length_blocks (n : Nat) (bs : Bytes) : (blocks n bs).length = bs.length / n :=
  length_pieces n _ bs

theorem blocks_cons {n : Nat} {bs : Bytes} (hn : 0 < n) (h : n ≤ bs.length) :
    blocks n bs = bs.take n :: blocks n (bs.drop n) := by
  obtain ⟨k, hk⟩ : ∃ k, bs.length / n = k + 1 :=
    Nat.exists_eq_add_one.2 (Nat.div_pos h hn)
  have hd : (bs.length - n) / n = k := by
    have := Nat.div_eq_sub_div hn h
    omega
  rw [blocks, hk, pieces, blocks, List.length_drop, hd]

theorem blocks_single {n : Nat} {bs : Bytes} (hn : 0 < n) (h : bs.length = n) :
    blocks n bs = [bs] := by
  rw [blocks_cons hn h.ge, List.take_of_length_le h.le, List.drop_of_length_le h.le,
    blocks_of_lt hn]

/-- A whole number of blocks in front comes out in front. -/
theorem blocks_append {n : Nat} (hn : 0 < n) (a b : Bytes) (h : n ∣ a.length) :
    blocks n (a ++ b) = blocks n a ++ blocks n b := by
  by_cases ha : a.length < n
  · have : a = [] := List.eq_nil_of_length_eq_zero (Nat.eq_zero_of_dvd_of_lt h ha)
    subst this
    have h0 : blocks n [] = [] := blocks_of_lt hn
    rw [h0, List.nil_append, List.nil_append]
  · have hle : n ≤ a.length := Nat.not_lt.1 ha
    have hd : n ∣ (a.drop n).length := by
      rw [List.length_drop]; exact Nat.dvd_sub h (Nat.dvd_refl n)
    rw [blocks_cons hn (by rw [List.length_append]; omega), blocks_cons hn hle,
      List.take_append_of_le_length hle, List.drop_append_of_le_length hle,
      blocks_append hn (a.drop n) b hd, List.cons_append]
termination_by a.length
decreasing_by simp only [List.length_drop]; omega

theorem length_of_mem_blocks {n : Nat} {bs block : Bytes} (h : block ∈ blocks n bs) :
    block.length = n := by
  obtain ⟨i, hi, rfl⟩ := mem_pieces.1 h
  have hend : n * (i + 1) ≤ bs.length := (Nat.mul_le_mul_left n hi).trans (Nat.mul_div_le _ _)
  rw [Nat.mul_succ] at hend
  rw [List.length_take, List.length_drop]
  omega

/-! ## Segments -/

/-- The pieces of `n` bytes that a byte string is cut into; the last one has
what is left and is not empty. -/
def segments (n : Nat) (bs : Bytes) : List Bytes := pieces n ((bs.length + n - 1) / n) bs

theorem segments_nil (n : Nat) : segments n [] = [] := by
  unfold segments
  rcases n with _ | n
  · rfl
  · rw [List.length_nil, Nat.zero_add, Nat.div_eq_of_lt (by omega), pieces]

theorem segments_cons {n : Nat} {bs : Bytes} (hn : 0 < n) (h : bs ≠ []) :
    segments n bs = bs.take n :: segments n (bs.drop n) := by
  have hpos : 0 < bs.length := List.length_pos_of_ne_nil h
  obtain ⟨k, hk⟩ : ∃ k, (bs.length + n - 1) / n = k + 1 :=
    Nat.exists_eq_add_one.2 (Nat.div_pos (by omega) hn)
  have hd : (bs.length - n + n - 1) / n = k := by
    by_cases hle : n ≤ bs.length
    · have := Nat.div_eq_sub_div hn (show n ≤ bs.length + n - 1 by omega)
      rw [show bs.length + n - 1 - n = bs.length - n + n - 1 by omega] at this
      omega
    · -- one segment only: nothing is left behind it
      have h1 : (bs.length + n - 1) / n = 1 :=
        Nat.div_eq_of_lt_le (by omega) (by omega)
      rw [Nat.div_eq_of_lt (by omega)]
      omega
  rw [segments, hk, pieces, segments, List.length_drop, hd]

theorem segments_single {n : Nat} {bs : Bytes} (hn : 0 < n) (h : bs ≠ []) (hl : bs.length ≤ n) :
    segments n bs = [bs] := by
  rw [segments_cons hn h, List.take_of_length_le hl, List.drop_of_length_le hl, segments_nil]

/-- A whole number of pieces in front comes out in front. -/
theorem segments_append {n : Nat} (hn : 0 < n) (a b : Bytes) (h : n ∣ a.length) :
    segments n (a ++ b) = segments n a ++ segments n b := by
  by_cases ha : a = []
  · rw [ha, segments_nil, List.nil_append, List.nil_append]
  · have hle : n ≤ a.length := Nat.le_of_dvd (List.length_pos_of_ne_nil ha) h
    have hd : n ∣ (a.drop n).length := by
      rw [List.length_drop]; exact Nat.dvd_sub h (Nat.dvd_refl n)
    rw [segments_cons hn (by simp [ha]), segments_cons hn ha,
      List.take_append_of_le_length hle, List.drop_append_of_le_length hle,
      segments_append hn (a.drop n) b hd, List.cons_append]
termination_by a.length
decreasing_by
  have := List.length_pos_of_ne_nil ha
  simp only [List.length_drop]
  omega

theorem length_segments (n : Nat) (bs : Bytes) :
    (segments n bs).length = bs.length ⌈/⌉ n := by
  rw [segments, length_pieces, Nat.ceilDiv_eq_add_pred_div]

/-- Nothing is lost between the pieces. -/
theorem flatten_segments {n : Nat} (hn : 0 < n) (bs : Bytes) : (segments n bs).flatten = bs := by
  by_cases h : bs = []
  · rw [h, segments_nil]
    rfl
  · rw [segments_cons hn h, List.flatten_cons, flatten_segments hn (bs.drop n),
      List.take_append_drop]
termination_by bs.length
decreasing_by
  have := List.length_pos_of_ne_nil h
  rw [List.length_drop]
  omega

theorem length_le_of_mem_segments {n : Nat} {bs piece : Bytes} (h : piece ∈ segments n bs) :
    piece.length ≤ n := by
  obtain ⟨i, -, rfl⟩ := mem_pieces.1 h
  exact List.length_take_le n _

/-- An encoding of the segments tells the byte string if it tells slices at the same
place apart. -/
theorem eq_of_map_segments {α : Type*} {n : Nat} (hn : 0 < n) {f : Bytes → α} {as bs : Bytes}
    (hf : ∀ i, f ((as.drop i).take n) = f ((bs.drop i).take n) →
      (as.drop i).take n = (bs.drop i).take n)
    (h : (segments n as).map f = (segments n bs).map f) : as = bs := by
  by_cases ha : as = []
  · by_cases hb : bs = []
    · rw [ha, hb]
    · rw [ha, segments_nil, segments_cons hn hb, List.map_nil, List.map_cons] at h
      cases h
  · by_cases hb : bs = []
    · rw [hb, segments_nil, segments_cons hn ha, List.map_nil, List.map_cons] at h
      cases h
    · rw [segments_cons hn ha, segments_cons hn hb, List.map_cons, List.map_cons] at h
      obtain ⟨hhead, htail⟩ := List.cons.inj h
      have hfront : as.take n = bs.take n := hf 0 hhead
      have hrest : as.drop n = bs.drop n := by
        refine eq_of_map_segments hn (fun i => ?_) htail
        rw [List.drop_drop, List.drop_drop]
        exact hf (n + i)
      rw [← List.take_append_drop n as, hfront, hrest, List.take_append_drop]
termination_by as.length
decreasing_by
  have := List.length_pos_of_ne_nil ha
  rw [List.length_drop]
  omega

/-- Without a shorter piece the segments are the whole blocks. -/
theorem segments_eq_blocks {n : Nat} (hn : 0 < n) {bs : Bytes} (h : n ∣ bs.length) :
    segments n bs = blocks n bs := by
  obtain ⟨q, hq⟩ := h
  have hdiv : (bs.length + n - 1) / n = bs.length / n := by
    rw [hq, Nat.mul_div_cancel_left q hn, Nat.add_sub_assoc hn, Nat.mul_add_div hn,
      Nat.div_eq_of_lt (by omega), Nat.add_zero]
  rw [segments, hdiv, blocks]

end Bytes

/-! ## Arrays of fixed length -/

namespace FixedBytes

theorem length_toBytes {n : Nat} (a : FixedBytes n) : a.toBytes.length = n :=
  Vector.length_toList

theorem toBytes_injective {n : Nat} : Function.Injective (toBytes (n := n)) :=
  fun _ _ => Vector.toList_inj.1

/-- An array is made from its bytes and from no others. -/
theorem ofBytes_eq_ok {n : Nat} {bs : Bytes} {a : FixedBytes n} :
    ofBytes n bs = .ok a ↔ a.toBytes = bs := by
  unfold ofBytes ofBytes?
  constructor
  · intro h
    split at h
    · rename_i heq
      split at heq
      · cases heq
        cases h
        rfl
      · cases heq
    · cases h
  · rintro rfl
    rw [dif_pos (length_toBytes a)]
    rfl

theorem exists_toBytes {n : Nat} {bs : Bytes} (h : bs.length = n) :
    ∃ a : FixedBytes n, a.toBytes = bs :=
  ⟨⟨bs.toArray, by simp [h]⟩, rfl⟩

end FixedBytes

end StreamDigest
