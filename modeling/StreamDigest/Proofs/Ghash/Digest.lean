import StreamDigest.Proofs.Bytes.Bits
import StreamDigest.Proofs.Engine.Chunking

/-!
# What a GHASH stream computes

The pieces of 16 bytes of a message, the last one filled up with zeros, are
elements of the field (`elements`), and a stream folds them into its
accumulator one by one (`accumulate`), whatever the chunks. Blocks and elements
are the same thing: `elementOf` and `blockOf` are inverse to each other.
-/

namespace StreamDigest.Ghash

/-! ## Blocks and elements -/

/-- The block of an element, most significant byte first. -/
def blockOf (x : Element) : Bytes := Bytes.toBE 16 x.toNat

@[simp] theorem length_blockOf (x : Element) : (blockOf x).length = 16 := Bytes.length_toBE 16 _

theorem toNat_elementOf {block : Bytes} (h : block.length = 16) :
    (elementOf block).toNat = Bytes.ofBE block := by
  have hlt := Bytes.ofBE_lt block
  rw [h] at hlt
  rw [elementOf, BitVec.toNat_ofNat, Nat.mod_eq_of_lt (hlt.trans_eq (by norm_num))]

theorem blockOf_elementOf {block : Bytes} (h : block.length = 16) :
    blockOf (elementOf block) = block := by
  rw [blockOf, toNat_elementOf h, ← h, Bytes.toBE_ofBE]

theorem elementOf_blockOf (x : Element) : elementOf (blockOf x) = x := by
  apply BitVec.eq_of_toNat_eq
  rw [toNat_elementOf (length_blockOf x), blockOf, Bytes.ofBE_toBE]
  exact Nat.mod_eq_of_lt (x.isLt.trans_eq (by norm_num))

theorem elementOf_inj {a b : Bytes} (ha : a.length = 16) (hb : b.length = 16)
    (h : elementOf a = elementOf b) : a = b := by
  rw [← blockOf_elementOf ha, ← blockOf_elementOf hb, h]

/-- Blocks and elements have the same bits from the left. -/
theorem getMsbD_elementOf {block : Bytes} (h : block.length = 16) {i : Nat} (hi : i < 128) :
    (elementOf block).getMsbD i = Bytes.bit block i := by
  have hbit : (Bytes.ofBE block).testBit (8 * block.length - 1 - i) = Bytes.bit block i :=
    Bytes.testBit_ofBE (by omega)
  rw [← toNat_elementOf h, h] at hbit
  rw [BitVec.getMsbD_eq_getLsbD, ← BitVec.testBit_toNat, ← hbit, decide_eq_true hi, Bool.true_and]

theorem elementOf_xor {a b : Bytes} (ha : a.length = 16) (hb : b.length = 16) :
    elementOf (Bytes.xor a b) = elementOf a ^^^ elementOf b := by
  have hlen : (Bytes.xor a b).length = 16 := by rw [Bytes.length_xor, ha, hb, Nat.min_self]
  apply BitVec.eq_of_getMsbD_eq
  intro i hi
  rw [BitVec.getMsbD_xor, getMsbD_elementOf hlen hi, getMsbD_elementOf ha hi,
    getMsbD_elementOf hb hi, Bytes.bit_xor (ha.trans hb.symm)]

/-! ## The fold over a message -/

/-- The elements of a message. -/
def elements (m : Bytes) : List Element :=
  (Bytes.segments 16 m).map fun piece => elementOf (Bytes.padTo 16 piece)

/-- The accumulator `y` after some elements, with hash key `h`. -/
def accumulate (h y : Element) (xs : List Element) : Element :=
  xs.foldl (fun y x => mul (y ^^^ x) h) y

theorem elements_nil : elements [] = [] := by rw [elements, Bytes.segments_nil, List.map_nil]

theorem elements_cons {m : Bytes} (h : m ≠ []) :
    elements m = elementOf (Bytes.padTo 16 (m.take 16)) :: elements (m.drop 16) := by
  rw [elements, Bytes.segments_cons (by decide) h, List.map_cons, elements]

theorem elements_append (a b : Bytes) (h : 16 ∣ a.length) :
    elements (a ++ b) = elements a ++ elements b := by
  rw [elements, Bytes.segments_append (by decide) a b h, List.map_append, elements, elements]

theorem elements_of_le {m : Bytes} (h : m ≠ []) (hl : m.length ≤ 16) :
    elements m = [elementOf (Bytes.padTo 16 m)] := by
  rw [elements_cons h, List.take_of_length_le hl, List.drop_of_length_le hl, elements_nil]

theorem elements_of_dvd {m : Bytes} (h : 16 ∣ m.length) :
    elements m = (Bytes.blocks 16 m).map elementOf := by
  rw [elements, Bytes.segments_eq_blocks (by decide) h]
  apply List.map_congr_left
  intro block hblock
  rw [Bytes.padTo_of_length (Bytes.length_of_mem_blocks hblock).ge]

namespace Core

theorem final_eq (c : Core) (prior : Nat) {m : Bytes} (hm : m.length ≤ 16) :
    c.final prior m = ⟨c.h, accumulate c.h c.y (elements m)⟩ := by
  unfold final
  split
  · rename_i h
    rw [h, elements_nil]
    rfl
  · rename_i h
    rw [elements_of_le h hm]
    rfl

theorem consume_eq (c : Core) (prior : Nat) (m : Bytes) :
    backend.consume c prior m = ⟨c.h, accumulate c.h c.y (elements m)⟩ := by
  fun_induction backend.consume c prior m with
  | case1 c prior m hlt ih =>
    have hlong : 16 < m.length := hlt.1
    have hne : m ≠ [] := by
      rintro rfl
      exact Nat.not_lt_zero _ hlong
    have htake : (m.take 16).length = 16 := List.length_take_of_le hlong.le
    have hinterior : c.interior prior (m.take 16) = c.step (m.take 16) := by
      have hblocks : Bytes.blocks blockLen (m.take 16) = [m.take 16] :=
        Bytes.blocks_single (by decide) htake
      rw [interior, hblocks]
      rfl
    rw [elements_cons hne, Bytes.padTo_of_length htake.ge]
    refine ih.trans ?_
    change (⟨(c.interior prior (m.take 16)).h, accumulate (c.interior prior (m.take 16)).h
      (c.interior prior (m.take 16)).y (elements (m.drop 16))⟩ : Core) = _
    rw [hinterior]
    rfl
  | case2 c prior m hlt =>
    refine c.final_eq prior ?_
    by_contra hlong
    exact hlt ⟨Nat.lt_of_not_ge hlong, by decide⟩

end Core

/-- The digest of a message. -/
def digest (key : Key) (m : Bytes) : Bytes :=
  blockOf (accumulate (elementOf key.toBytes) 0 (elements m))

theorem reference_eq (key : Key) (m : Bytes) : backend.reference key m = .ok (digest key m) := by
  change Except.ok ((backend.consume (Core.ofKey key) 0 m).extract (Bytes.zeros 16)) = _
  rw [Core.consume_eq]
  rfl

theorem aligned : backend.Aligned := ⟨by decide, by decide, by decide⟩

/-- A message within the limit is taken in by any chunks, and its digest written. -/
theorem finish_updateAll (key : Key) (chunks : List Bytes)
    (h : chunks.flatten.length ≤ backend.maxInput) :
    ∃ s, Stream.create backend key = .ok ⟨Core.ofKey key, .empty 16⟩ ∧
      (⟨Core.ofKey key, .empty 16⟩ : Stream backend).updateAll chunks = .ok s ∧
      s.finish.onZeros 16 = .ok (digest key chunks.flatten) := by
  have hinit : backend.init key = .ok (Core.ofKey key) := rfl
  obtain ⟨s, pieces, hs, ha⟩ := Stream.exists_absorbed aligned hinit chunks h
  obtain ⟨d, href, -, hfinish⟩ := ha.digest_eq aligned blockwise
  rw [reference_eq] at href
  cases href
  refine ⟨s, Stream.create_eq hinit, ?_, ?_⟩
  · rwa [Stream.create_eq hinit, except_ok_bind] at hs
  · rw [InPlace.onZeros, EStateM.run, hfinish _ (Bytes.length_zeros 16)]

end StreamDigest.Ghash
