import StreamDigest.Proofs.Algebra.Evaluation
import StreamDigest.Proofs.Ghash.Distinct
import StreamDigest.Proofs.Ghash.Multiplication

/-!
# Digests as values of a polynomial

A stream's accumulator is Horner's rule (`value_accumulate`), so the digest of a
message is the value, at the hash key, of the polynomial that has the blocks as
coefficients (`value_accumulate_elements`). What precedes some elements is
multiplied by the key once for each of them (`accumulate_eq`); the laws of the
field then say what becomes of messages that are padded, added or put together.
-/

namespace StreamDigest

namespace Ghash

/-! ## Blocks by their index -/

/-- The block at index `i` of a message, a short one filled up with zeros. -/
def blockAt (m : Bytes) (i : ℕ) : Bytes := Bytes.padTo 16 ((m.drop (16 * i)).take 16)

@[simp] theorem length_blockAt (m : Bytes) (i : ℕ) : (blockAt m i).length = 16 :=
  Bytes.length_padTo (List.length_take_le 16 _)

theorem getElem_blockAt (m : Bytes) (i : ℕ) {j : ℕ} (hj : j < (blockAt m i).length) :
    (blockAt m i)[j] = m.getD (16 * i + j) 0 := by
  simp only [blockAt, Bytes.padTo_take_drop, List.getElem_map, List.getElem_range]

theorem elements_eq_map (m : Bytes) :
    elements m = (List.range (m.length ⌈/⌉ 16)).map fun i => elementOf (blockAt m i) := by
  rw [elements, Bytes.segments, Bytes.pieces_eq_map, List.map_map, Nat.ceilDiv_eq_add_pred_div]
  rfl

theorem length_elements (m : Bytes) : (elements m).length = m.length ⌈/⌉ 16 := by
  rw [elements, List.length_map, Bytes.length_segments]

/-! ## Horner's rule -/

/-- `h ^ n`, as an element. -/
def power (h : Element) (n : ℕ) : Element := (mul h)^[n] one

theorem power_succ (h : Element) (n : ℕ) : power h (n + 1) = mul h (power h n) :=
  Function.iterate_succ_apply' _ _ _

theorem value_power (h : Element) (n : ℕ) : value (power h n) = value h ^ n := by
  induction n with
  | zero => rw [pow_zero, ← value_one]; rfl
  | succ n ih => rw [power_succ, value_mul, ih, pow_succ']

theorem value_accumulate (h : Element) (xs : List Element) :
    value (accumulate h 0 xs) = horner (value h) (xs.map value) := by
  suffices ∀ y, value (accumulate h y xs) =
      (xs.map value).foldl (fun y c => (y + c) * value h) (value y) by
    have hzero : value 0 = 0 := value_zero
    rw [this, hzero, horner]
  induction xs with
  | nil => exact fun y => rfl
  | cons x xs ih =>
    intro y
    rw [accumulate_cons, ih, value_mul, value_xor, List.map_cons, List.foldl_cons]

/-- The accumulator after a message, in the field. -/
theorem value_accumulate_elements (h : Element) (m : Bytes) :
    value (accumulate h 0 (elements m)) = ∑ i ∈ Finset.range (m.length ⌈/⌉ 16),
      value (elementOf (blockAt m i)) * value h ^ (m.length ⌈/⌉ 16 - i) := by
  rw [value_accumulate, elements_eq_map, List.map_map, ← horner_range]
  rfl

/-- Where the accumulator starts counts with a power of the key. -/
theorem accumulate_eq (h y : Element) (xs : List Element) :
    accumulate h y xs = mul y (power h xs.length) ^^^ accumulate h 0 xs := by
  induction xs generalizing y with
  | nil =>
    change y = mul y one ^^^ 0
    rw [Ghash.mul_one]
    exact BitVec.xor_zero.symm
  | cons x xs ih =>
    have hx : 0 ^^^ x = x := BitVec.zero_xor
    rw [accumulate_cons, accumulate_cons, ih, ih (mul (0 ^^^ x) h), hx, xor_mul, xor_mul,
      Ghash.mul_assoc y, ← power_succ, BitVec.xor_assoc, List.length_cons]

/-! ## Laws of digests -/

theorem blockOf_xor (x y : Element) : blockOf (x ^^^ y) = Bytes.xor (blockOf x) (blockOf y) := by
  have hlen : (Bytes.xor (blockOf x) (blockOf y)).length = 16 := by
    rw [Bytes.length_xor, length_blockOf, length_blockOf, Nat.min_self]
  rw [← blockOf_elementOf hlen, elementOf_xor (length_blockOf x) (length_blockOf y),
    elementOf_blockOf, elementOf_blockOf]

theorem digest_nil (key : Key) : digest key [] = Bytes.zeros 16 := by
  have hzero : blockOf 0 = Bytes.zeros 16 := by decide
  rw [digest, elements_nil, ← hzero]
  rfl

theorem elements_congr {m m' : Bytes} (hlen : m.length ⌈/⌉ 16 = m'.length ⌈/⌉ 16)
    (h : ∀ i, m.getD i 0 = m'.getD i 0) : elements m = elements m' := by
  rw [elements_eq_map, elements_eq_map, hlen]
  refine List.map_congr_left fun i _ => congrArg elementOf ?_
  refine List.ext_getElem (by simp) fun j hj hj' => ?_
  rw [getElem_blockAt, getElem_blockAt, h]

/-- Zeros up to the end of the last block do not show. -/
theorem digest_padTo (key : Key) (m : Bytes) :
    digest key (Bytes.padTo (16 * (m.length ⌈/⌉ 16)) m) = digest key m := by
  have hceil := Nat.ceilDiv_eq_add_pred_div m.length 16
  have hlen : (Bytes.padTo (16 * (m.length ⌈/⌉ 16)) m).length = 16 * (m.length ⌈/⌉ 16) :=
    Bytes.length_padTo (by omega)
  rw [digest, digest]
  congr 2
  refine elements_congr ?_ fun i => ?_
  · rw [hlen, Nat.ceilDiv_eq_add_pred_div]
    omega
  · unfold Bytes.padTo Bytes.zeros
    rw [List.getD_eq_getElem?_getD, List.getD_eq_getElem?_getD, List.getElem?_append]
    split_ifs with h
    · rfl
    · rw [List.getElem?_eq_none (Nat.not_lt.1 h), List.getElem?_replicate]
      split_ifs <;> rfl

theorem blockAt_xor {m m' : Bytes} (h : m.length = m'.length) (i : ℕ) :
    blockAt (Bytes.xor m m') i = Bytes.xor (blockAt m i) (blockAt m' i) := by
  refine List.ext_getElem (by simp [Bytes.length_xor]) fun j hj hj' => ?_
  rw [getElem_blockAt]
  simp only [Bytes.xor, List.getElem_zipWith, getElem_blockAt, List.getD_eq_getElem?_getD,
    List.getElem?_zipWith]
  by_cases hi : 16 * i + j < m.length
  · simp [hi, h ▸ hi]
  · simp [hi, h ▸ hi]

/-- Digests of messages of one length add up. -/
theorem digest_xor (key : Key) {m m' : Bytes} (h : m.length = m'.length) :
    digest key (Bytes.xor m m') = Bytes.xor (digest key m) (digest key m') := by
  have hlen : (Bytes.xor m m').length = m.length := by
    rw [Bytes.length_xor, ← h, Nat.min_self]
  rw [digest, digest, digest, ← blockOf_xor]
  congr 1
  apply value_injective
  rw [value_xor, value_accumulate_elements, value_accumulate_elements, value_accumulate_elements,
    hlen, ← h, ← Finset.sum_add_distrib]
  refine Finset.sum_congr rfl fun i _ => ?_
  rw [blockAt_xor h, elementOf_xor (length_blockAt m i) (length_blockAt m' i), value_xor, add_mul]

/-- Whole blocks in front count with a power of the key. -/
theorem digest_append (key : Key) (u v : Bytes) (h : 16 ∣ u.length) :
    digest key (u ++ v) =
      Bytes.xor (blockOf (mul (elementOf (digest key u))
        (power (elementOf key.toBytes) (v.length ⌈/⌉ 16)))) (digest key v) := by
  rw [digest, digest, digest, elementOf_blockOf, elements_append u v h, accumulate_append,
    accumulate_eq, length_elements, blockOf_xor]

/-! ## Streams -/

theorem aligned_withLanes (lanes : LaneWidth) : (backend.withLanes lanes).Aligned := by
  cases lanes <;> exact ⟨by decide, by decide, by decide⟩

theorem finish_of_absorbed {lanes : LaneWidth} {s : Stream (backend.withLanes lanes)} {key : Key}
    {m : Bytes} {pieces : List Bytes} (h : s.Absorbed key m pieces) {out : Bytes}
    (hout : out.length = 16) : s.finish out = .ok () (digest key m) := by
  obtain ⟨d, href, -, hfinish⟩ :=
    h.digest_eq (aligned_withLanes lanes) (blockwise.withBuffer lanes _)
  have hd := (Backend.reference_withBuffer lanes _ key m).symm.trans href
  rw [reference_eq] at hd
  cases hd
  exact hfinish out hout

/-- **A digest is the value of a polynomial at the hash key**, whatever the chunks, the lanes
and the past of its stream: in the field, the sum over the blocks of each block times a power
of the key, the last block times the key itself. So zeros that fill the last block do not
show, digests of messages of one length add up, and whole blocks in front of a message count
with a power of the key. -/
theorem digest_of_streams :
    (∀ (lanes : LaneWidth) (actions : List (Action Key)),
      ∀ t ∈ run (backend.withLanes lanes) actions, ∀ out : Bytes, out.length = 16 →
        t.stream.finish out = .ok () (digest t.params t.message)) ∧
    (∀ (lanes : LaneWidth) (key : Key) (chunks : List Bytes),
      chunks.flatten.length ≤ backend.maxInput →
        ∃ s, Stream.create (backend.withLanes lanes) key >>= (·.updateAll chunks) = .ok s ∧
          ∀ out : Bytes, out.length = 16 → s.finish out = .ok () (digest key chunks.flatten)) ∧
    (∀ (key : Key) (m : Bytes), ∃ y : Element, digest key m = Bytes.toBE 16 y.toNat ∧
      value y = ∑ i ∈ Finset.range (m.length ⌈/⌉ 16),
        value (elementOf (blockAt m i)) *
          value (elementOf key.toBytes) ^ (m.length ⌈/⌉ 16 - i)) ∧
    (∀ key : Key, digest key [] = Bytes.zeros 16) ∧
    (∀ (key : Key) (m : Bytes),
      digest key (Bytes.padTo (16 * (m.length ⌈/⌉ 16)) m) = digest key m) ∧
    (∀ (key : Key) (m m' : Bytes), m.length = m'.length →
      digest key (Bytes.xor m m') = Bytes.xor (digest key m) (digest key m')) ∧
    (∀ (h : Element) (n : ℕ), value (power h n) = value h ^ n) ∧
    ∀ (key : Key) (u v : Bytes), 16 ∣ u.length →
      digest key (u ++ v) =
        Bytes.xor (blockOf (mul (elementOf (digest key u))
          (power (elementOf key.toBytes) (v.length ⌈/⌉ 16)))) (digest key v) := by
  refine ⟨fun lanes actions t ht out hout => ?_, fun lanes key chunks hm => ?_,
    fun key m => ⟨accumulate (elementOf key.toBytes) 0 (elements m), rfl,
      value_accumulate_elements _ m⟩,
    digest_nil, digest_padTo, fun key m m' h => digest_xor key h, value_power, digest_append⟩
  · obtain ⟨pieces, -, h⟩ := sound_of_mem_run (aligned_withLanes lanes) ht
    exact finish_of_absorbed h hout
  · have hinit : (backend.withLanes lanes).init key = .ok (Core.ofKey key) := rfl
    obtain ⟨s, pieces, hs, h⟩ := Stream.exists_absorbed (aligned_withLanes lanes) hinit chunks hm
    exact ⟨s, hs, fun out hout => finish_of_absorbed h hout⟩

/-- A ciphertext of one block and the block of lengths behind it, in two parts. -/
theorem digest_of_streams_of_ciphertext :
    ∃ s, Stream.create (backend.withLanes .m256) #v[0x66, 0xe9, 0x4b, 0xd4, 0xef, 0x8a, 0x2c, 0x3b,
          0x88, 0x4c, 0xfa, 0x59, 0xca, 0x34, 0x2b, 0x2e] >>=
        (·.updateAll [[0x03, 0x88, 0xda, 0xce, 0x60], [0xb6, 0xa3, 0x92, 0xf3, 0x28, 0xc2, 0xb9,
          0x71, 0xb2, 0xfe, 0x78] ++ Bytes.zeros 15 ++ [0x80]]) = .ok s ∧
      s.finish (Bytes.zeros 16) = .ok () [0xf3, 0x8c, 0xbb, 0x1a, 0xd6, 0x92, 0x23, 0xdc, 0xc3,
        0x45, 0x7a, 0xe5, 0xb6, 0xb0, 0xf8, 0x85] := by
  refine (digest_of_streams.2.1 .m256 _ _ (by decide)).imp fun s h =>
    ⟨h.1, (h.2 _ (Bytes.length_zeros 16)).trans (congrArg _ ?_)⟩
  decide +kernel

end Ghash

end StreamDigest
