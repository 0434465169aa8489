import StreamDigest.Engine.Buffer
import StreamDigest.Proofs.Bytes.Slices

/-!
# What a stream holds back

A message of any length splits into a front of whole buffers, `handedOn`, and
an end of at most one buffer, `heldBack`, which is empty only if the message
is. The front of whole buffers may grow at will without changing what is held
back (`heldBack_append`); everything about chunks and nested block sizes comes
from this.
-/

namespace StreamDigest

/-! ## The residue -/

@[simp] theorem residual_zero (n : Nat) : residual 0 n = 0 := by simp [residual]

theorem residualChecked_eq {n : Nat} (hn : 0 < n) (t : Nat) :
    residualChecked t n = .ok (residual t n) := if_pos hn

theorem residual_le_total (t n : Nat) : residual t n ≤ t := by
  unfold residual
  split
  · rename_i h
    exact Nat.le_of_dvd h.1 (Nat.dvd_of_mod_eq_zero h.2)
  · exact Nat.mod_le t n

theorem residual_le_size {n : Nat} (hn : 0 < n) (t : Nat) : residual t n ≤ n := by
  unfold residual
  split
  · exact Nat.le_refl n
  · exact (Nat.mod_lt t hn).le

theorem residual_pos {t : Nat} (n : Nat) (ht : 0 < t) : 0 < residual t n := by
  unfold residual
  split
  · rename_i h
    exact Nat.pos_of_dvd_of_pos (Nat.dvd_of_mod_eq_zero h.2) ht
  · rename_i h
    exact Nat.pos_of_ne_zero fun h0 => h ⟨ht, h0⟩

theorem dvd_sub_residual (t n : Nat) : n ∣ t - residual t n := by
  unfold residual
  split
  · rename_i h
    exact Nat.dvd_sub (Nat.dvd_of_mod_eq_zero h.2) (Nat.dvd_refl n)
  · exact Nat.dvd_sub_mod t

/-- The residue is the only number from `1` to `n` that leaves a multiple of `n`. -/
theorem residual_eq {t n r : Nat} (hr : 0 < r) (hle : r ≤ n) (hd : n ∣ t - r) (h : r ≤ t) :
    residual t n = r := by
  obtain ⟨q, hq⟩ := hd
  obtain rfl : t = n * q + r := by omega
  unfold residual
  rw [Nat.mul_add_mod]
  rcases Nat.lt_or_eq_of_le hle with hlt | rfl
  · rw [Nat.mod_eq_of_lt hlt, if_neg (by omega)]
  · rw [if_pos ⟨by omega, Nat.mod_self r⟩]

theorem residual_of_le {t n : Nat} (h : t ≤ n) : residual t n = t := by
  rcases Nat.eq_zero_or_pos t with rfl | ht
  · exact residual_zero n
  · exact residual_eq ht h (by simp) (Nat.le_refl t)

theorem residual_add {k t n : Nat} (hn : 0 < n) (hk : n ∣ k) (ht : 0 < t) :
    residual (k + t) n = residual t n := by
  have hle := residual_le_total t n
  refine residual_eq (residual_pos n ht) (residual_le_size hn t) ?_ (by omega)
  rw [Nat.add_sub_assoc hle]
  exact Nat.dvd_add hk (dvd_sub_residual t n)

/-! ## The two parts of a message -/

/-- The front of a message that a buffer of `size` bytes has handed on. -/
def handedOn (size : Nat) (m : Bytes) : Bytes := m.take (m.length - residual m.length size)

/-- The end of a message that a buffer of `size` bytes holds back. -/
def heldBack (size : Nat) (m : Bytes) : Bytes := m.drop (m.length - residual m.length size)

theorem handedOn_append_heldBack (size : Nat) (m : Bytes) :
    handedOn size m ++ heldBack size m = m := List.take_append_drop _ m

theorem cut_handedOn (size : Nat) (m : Bytes) :
    Bytes.cut (m.length - residual m.length size) m = .ok (handedOn size m, heldBack size m) :=
  Bytes.cut_eq (Nat.sub_le _ _)

theorem length_heldBack (size : Nat) (m : Bytes) :
    (heldBack size m).length = residual m.length size := by
  have := residual_le_total m.length size
  rw [heldBack, List.length_drop]
  omega

theorem length_handedOn (size : Nat) (m : Bytes) :
    (handedOn size m).length = m.length - residual m.length size := by
  rw [handedOn, List.length_take]
  omega

theorem length_handedOn_add (size : Nat) (m : Bytes) :
    (handedOn size m).length + (heldBack size m).length = m.length := by
  rw [← List.length_append, handedOn_append_heldBack]

theorem dvd_length_handedOn (size : Nat) (m : Bytes) : size ∣ (handedOn size m).length := by
  rw [length_handedOn]
  exact dvd_sub_residual m.length size

@[simp] theorem handedOn_nil (size : Nat) : handedOn size [] = [] := rfl

@[simp] theorem heldBack_nil (size : Nat) : heldBack size [] = [] := rfl

theorem heldBack_eq_nil {size : Nat} {m : Bytes} : heldBack size m = [] ↔ m = [] := by
  constructor
  · intro h
    by_contra hm
    have := residual_pos size (List.length_pos_of_ne_nil hm)
    rw [← length_heldBack, h] at this
    exact Nat.lt_irrefl 0 this
  · rintro rfl
    rfl

theorem length_heldBack_le {size : Nat} (hs : 0 < size) (m : Bytes) :
    (heldBack size m).length ≤ size := by
  rw [length_heldBack]
  exact residual_le_size hs m.length

theorem heldBack_of_le {size : Nat} {m : Bytes} (h : m.length ≤ size) : heldBack size m = m := by
  rw [heldBack, residual_of_le h, Nat.sub_self, List.drop_zero]

theorem handedOn_of_le {size : Nat} {m : Bytes} (h : m.length ≤ size) : handedOn size m = [] := by
  rw [handedOn, residual_of_le h, Nat.sub_self, List.take_zero]

section
variable {size : Nat} (hs : 0 < size) (a : Bytes) {m : Bytes} (ha : size ∣ a.length) (hm : m ≠ [])
include hs ha hm

theorem sub_residual_append :
    (a ++ m).length - residual (a ++ m).length size =
      a.length + (m.length - residual m.length size) := by
  have := residual_le_total m.length size
  rw [List.length_append, residual_add hs ha (List.length_pos_of_ne_nil hm)]
  omega

/-- Whole buffers in front do not change what is held back. -/
theorem heldBack_append : heldBack size (a ++ m) = heldBack size m := by
  rw [heldBack, sub_residual_append hs a ha hm, List.drop_append, heldBack]
  simp

theorem handedOn_append : handedOn size (a ++ m) = a ++ handedOn size m := by
  rw [handedOn, sub_residual_append hs a ha hm, List.take_append, handedOn]
  simp

end

/-- Data that fits behind what is held back is held back as well. -/
theorem heldBack_grow {size : Nat} (hs : 0 < size) (m : Bytes) {data : Bytes}
    (hfits : (heldBack size m ++ data).length ≤ size) :
    heldBack size (m ++ data) = heldBack size m ++ data ∧
      handedOn size (m ++ data) = handedOn size m := by
  by_cases h0 : heldBack size m ++ data = []
  · obtain ⟨hm, rfl⟩ := List.append_eq_nil_iff.1 h0
    rw [heldBack_eq_nil.1 hm]
    exact ⟨rfl, rfl⟩
  · have hdvd := dvd_length_handedOn size m
    have hsplit : m ++ data = handedOn size m ++ (heldBack size m ++ data) := by
      rw [← List.append_assoc, handedOn_append_heldBack]
    rw [hsplit, heldBack_append hs _ hdvd h0, heldBack_of_le hfits,
      handedOn_append hs _ hdvd h0, handedOn_of_le hfits, List.append_nil]
    exact ⟨rfl, rfl⟩

/-- Blocks that fill a buffer: what a message leaves of a block is what the
held bytes leave of it. -/
theorem heldBack_heldBack {block size : Nat} (hb : 0 < block) (hd : block ∣ size) (m : Bytes) :
    heldBack block (heldBack size m) = heldBack block m := by
  by_cases hm : heldBack size m = []
  · rw [hm, heldBack_eq_nil.1 hm]
  · conv_rhs => rw [← handedOn_append_heldBack size m]
    exact (heldBack_append hb _ (hd.trans (dvd_length_handedOn size m)) hm).symm

theorem handedOn_append_handedOn {block size : Nat} (hb : 0 < block) (hd : block ∣ size)
    (m : Bytes) : handedOn size m ++ handedOn block (heldBack size m) = handedOn block m := by
  by_cases hm : heldBack size m = []
  · rw [heldBack_eq_nil.1 hm]
    rfl
  · conv_rhs => rw [← handedOn_append_heldBack size m]
    exact (handedOn_append hb _ (hd.trans (dvd_length_handedOn size m)) hm).symm

end StreamDigest
