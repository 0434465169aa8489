import StreamDigest.OnetimeAuth
import StreamDigest.Proofs.Bytes.Endian
import StreamDigest.Proofs.Engine.Chunking
import StreamDigest.Proofs.Poly1305.Limbs

/-!
# Poly1305 streams compute the standard's tag

`Core.At c r s n` is the invariant of a core: its multiplier is `r`, its pad is
`s` and its accumulator is `n` modulo `p`. A block takes `n` to `(n + b) * r`,
where `b` is the coefficient of the block (`Core.At.step`); a whole message
follows by the recursion of `consume`, and `Core.At.tag` reads the tag off.
-/

namespace StreamDigest.Poly1305

/-! ## Words of a byte string -/

theorem toNat_wordAt (bs : Bytes) (i : Nat) :
    (wordAt bs i).toNat = Bytes.ofLE ((bs.drop i).take 8) := by
  have hlen : ((bs.drop i).take 8).length ≤ 8 := List.length_take_le 8 _
  have hlt : Bytes.ofLE ((bs.drop i).take 8) < 2 ^ 64 := by
    calc Bytes.ofLE ((bs.drop i).take 8)
        < 256 ^ ((bs.drop i).take 8).length := Bytes.ofLE_lt _
      _ ≤ 256 ^ 8 := Nat.pow_le_pow_right (by decide) hlen
      _ = 2 ^ 64 := by norm_num
  rw [wordAt, BitVec.toNat_ofNat, Nat.mod_eq_of_lt hlt]

/-- Two words in a row are the number of their sixteen bytes. -/
theorem toNat_wordAt_pair {bs : Bytes} {i : Nat} (h : i + 16 ≤ bs.length) :
    (wordAt bs i).toNat + 2 ^ 64 * (wordAt bs (i + 8)).toNat =
      Bytes.ofLE ((bs.drop i).take 16) := by
  have hlen : 8 ≤ ((bs.drop i).take 16).length := by
    rw [List.length_take, List.length_drop]
    omega
  have hlow : ((bs.drop i).take 16).take 8 = (bs.drop i).take 8 := by
    rw [List.take_take]
    rfl
  have hhigh : ((bs.drop i).take 16).drop 8 = (bs.drop (i + 8)).take 8 := by
    rw [List.drop_take, List.drop_drop]
  rw [toNat_wordAt, toNat_wordAt, Bytes.ofLE_take_drop hlen, hlow, hhigh]
  norm_num

/-! ## The key -/

/-- A conjunction in three parts of 44 bits. -/
theorem and_split {a b c : Nat} (ha : a < 2 ^ 44) (hb : b < 2 ^ 44) (m : Nat) :
    (a + 2 ^ 44 * b + 2 ^ 88 * c) &&& m = (a &&& m % 2 ^ 44) +
      2 ^ 44 * (b &&& m / 2 ^ 44 % 2 ^ 44) + 2 ^ 88 * (c &&& m / 2 ^ 88) := by
  have hlow : ((a + 2 ^ 44 * b + 2 ^ 88 * c) &&& m) % 2 ^ 44 = a &&& m % 2 ^ 44 := by
    rw [Nat.and_mod_two_pow, show (a + 2 ^ 44 * b + 2 ^ 88 * c) % 2 ^ 44 = a by omega]
  have hmiddle : ((a + 2 ^ 44 * b + 2 ^ 88 * c) &&& m) / 2 ^ 44 % 2 ^ 44 =
      b &&& m / 2 ^ 44 % 2 ^ 44 := by
    rw [Nat.and_div_two_pow, Nat.and_mod_two_pow,
      show (a + 2 ^ 44 * b + 2 ^ 88 * c) / 2 ^ 44 % 2 ^ 44 = b by omega]
  have hhigh : ((a + 2 ^ 44 * b + 2 ^ 88 * c) &&& m) / 2 ^ 88 = c &&& m / 2 ^ 88 := by
    rw [Nat.and_div_two_pow, show (a + 2 ^ 44 * b + 2 ^ 88 * c) / 2 ^ 88 = c by omega]
  rw [← hlow, ← hmiddle, ← hhigh]
  generalize (a + 2 ^ 44 * b + 2 ^ 88 * c) &&& m = n
  omega

/-- The limbs of the clamped number are the limbs of the number, each clamped. -/
theorem clamp_spec (t₀ t₁ : Word) : (clamp t₀ t₁).Narrow ∧
    (clamp t₀ t₁).value = (t₀.toNat + 2 ^ 64 * t₁.toNat) &&& Standard.clampMask := by
  obtain ⟨b₀, b₁, b₂⟩ := Limbs.narrow_ofWords t₀ t₁
  have hclamp : clamp t₀ t₁ = ⟨(Limbs.ofWords t₀ t₁).x₀ &&& 0xffc0fffffff,
      (Limbs.ofWords t₀ t₁).x₁ &&& 0xfffffc0ffff,
      (Limbs.ofWords t₀ t₁).x₂ &&& 0x00ffffffc0f⟩ := by
    unfold clamp Limbs.ofWords
    dsimp only
    rw [BitVec.and_assoc, BitVec.and_assoc, BitVec.and_assoc]
    rfl
  rw [hclamp]
  constructor
  · refine ⟨?_, ?_, ?_⟩
    · exact Nat.and_le_left.trans_lt b₀
    · exact Nat.and_le_left.trans_lt b₁
    · exact Nat.and_le_left.trans_lt b₂
  · rw [← Limbs.value_ofWords, Limbs.value, Limbs.value, and_split b₀ b₁]
    rfl

theorem length_key (key : Key) : key.toBytes.length = 32 := Vector.length_toList

/-! ## Blocks -/

theorem toNat_blockLimbs_top (topBit : Bool) (block : Bytes) :
    (Core.blockLimbs topBit block).x₂.toNat =
      (Limbs.ofWords (wordAt block 0) (wordAt block 8)).x₂.toNat +
        if topBit then 2 ^ 40 else 0 := by
  cases topBit with
  | false =>
    rw [if_neg Bool.false_ne_true, Nat.add_zero]
    exact congrArg BitVec.toNat BitVec.or_zero
  | true =>
    exact toNat_or_shiftLeft (by decide)
      (Limbs.narrow_ofWords (wordAt block 0) (wordAt block 8)).x₂_lt 1

theorem block_blockLimbs (topBit : Bool) (block : Bytes) :
    (Core.blockLimbs topBit block).Block := by
  obtain ⟨b₀, b₁, b₂⟩ := Limbs.narrow_ofWords (wordAt block 0) (wordAt block 8)
  refine ⟨b₀, b₁, ?_⟩
  rw [toNat_blockLimbs_top]
  split <;> omega

/-- A block as limbs is its number, with the top bit if there is one. -/
theorem value_blockLimbs (topBit : Bool) {block : Bytes} (h : block.length = 16) :
    (Core.blockLimbs topBit block).value =
      Bytes.ofLE block + if topBit then 2 ^ 128 else 0 := by
  have hvalue : (Limbs.ofWords (wordAt block 0) (wordAt block 8)).value = Bytes.ofLE block := by
    rw [Limbs.value_ofWords, toNat_wordAt_pair (by omega), List.drop_zero,
      List.take_of_length_le h.le]
  have hx₀ : (Core.blockLimbs topBit block).x₀ =
      (Limbs.ofWords (wordAt block 0) (wordAt block 8)).x₀ := rfl
  have hx₁ : (Core.blockLimbs topBit block).x₁ =
      (Limbs.ofWords (wordAt block 0) (wordAt block 8)).x₁ := rfl
  rw [← hvalue, Limbs.value, Limbs.value, toNat_blockLimbs_top, hx₀, hx₁]
  split <;> omega

namespace Core

/-- The multiplier is `r`, the pad is `s` and the accumulator is `n` modulo `p`. -/
structure At (c : Core) (r s n : Nat) : Prop where
  narrow : c.r.Narrow
  r_eq : c.r.value = r
  pad_eq : c.pad.1.toNat + 2 ^ 64 * c.pad.2.toNat = s
  bounds : c.h.Partial
  value : c.h.value ≡ n [MOD modulus]

variable {c : Core} {r s n : Nat}

theorem at_ofKey (key : Key) : (ofKey key).At (Standard.multiplier key) (Standard.pad key) 0 := by
  have hlen := length_key key
  obtain ⟨hnarrow, hvalue⟩ := clamp_spec (wordAt key.toBytes 0) (wordAt key.toBytes 8)
  refine ⟨hnarrow, ?_, ?_, Limbs.partial_zero, rfl⟩
  · rw [Standard.multiplier]
    refine hvalue.trans ?_
    rw [toNat_wordAt_pair (by omega), List.drop_zero]
  · refine (toNat_wordAt_pair (by omega)).trans ?_
    rw [Standard.pad, List.take_of_length_le]
    rw [List.length_drop, hlen]

/-- The tag of any accumulator that the reduction takes in, also one that no message leads to. -/
theorem tag_eq (h₀ : c.h.x₀.toNat < 2 ^ 44) (h₁ : c.h.x₁.toNat < 2 ^ 45)
    (h₂ : c.h.x₂.toNat < 2 ^ 42) :
    c.tag = Bytes.toLE 16
      ((c.h.value % modulus + (c.pad.1.toNat + 2 ^ 64 * c.pad.2.toNat)) % 2 ^ 128) := by
  obtain ⟨hcanonical, hreduce⟩ := Limbs.reduce_spec h₀ h₁ h₂
  obtain ⟨hsum, hvalue⟩ := Limbs.addCarry_spec hcanonical
    (Limbs.narrow_ofWords c.pad.1 c.pad.2).canonical
  have hwords := Limbs.toNat_toWords hsum
  have hmod : ∀ x, x % 2 ^ 130 % 2 ^ 128 = x % 2 ^ 128 := by
    intro x
    omega
  rw [hvalue, hreduce, Limbs.value_ofWords, hmod] at hwords
  rw [← hwords, Bytes.toLE_words (BitVec.isLt _)]
  rfl

namespace At

theorem step (h : c.At r s n) (topBit : Bool) {block : Bytes} (hb : block.length = 16) :
    (c.step topBit block).At r s
      ((n + (Bytes.ofLE block + if topBit then 2 ^ 128 else 0)) * r) := by
  obtain ⟨hloaded, hsum⟩ := Limbs.add_spec h.bounds (block_blockLimbs topBit block)
  obtain ⟨hpartial, hvalue⟩ := Limbs.mulMod_spec hloaded h.narrow
  refine ⟨h.narrow, h.r_eq, h.pad_eq, hpartial, hvalue.trans ?_⟩
  rw [hsum, h.r_eq, value_blockLimbs topBit hb]
  exact (h.value.add_right _).mul_right r

/-- The tag is the residue and the pad, in sixteen bytes. -/
theorem tag (h : c.At r s n) : c.tag = Bytes.toLE 16 ((n % modulus + s) % 2 ^ 128) := by
  obtain ⟨h₀, h₁, h₂⟩ := h.bounds
  rw [tag_eq h₀ (by omega) h₂, h.pad_eq, h.value]

/-- A block in full takes the accumulator on by its coefficient. -/
theorem step_full (h : c.At r s n) {block : Bytes} (hb : block.length = 16) :
    (c.step true block).At r s ((n + Standard.coefficient block) * r) := by
  have hcoefficient : Standard.coefficient block = Bytes.ofLE block + 2 ^ 128 := by
    rw [Standard.coefficient_eq, hb]
    norm_num
  rw [hcoefficient]
  exact h.step true hb

theorem final (h : c.At r s n) (prior : Nat) {m : Bytes} (hm : m.length ≤ 16) :
    (c.final prior m).At r s
      ((Standard.coefficients m).foldl (fun h b => (h + b) * r) n) := by
  unfold Core.final
  split_ifs with hfull hempty
  · have hne : m ≠ [] := by
      rintro rfl
      cases hfull
    rw [Standard.coefficients_single hne hm]
    exact h.step_full hfull
  · rw [hempty, Standard.coefficients_nil]
    exact h
  · have hlen : (m ++ [1]).length ≤ 16 := by
      rw [List.length_append, List.length_singleton]
      change m.length ≠ 16 at hfull
      omega
    have hpadded : (Bytes.padTo 16 (m ++ [1])).length = 16 := Bytes.length_padTo hlen
    have hstep := h.step false hpadded
    rw [Bytes.ofLE_padTo] at hstep
    rw [Standard.coefficients_single hempty hm]
    exact hstep

theorem consume (h : c.At r s n) (prior : Nat) (m : Bytes) :
    (backend.consume c prior m).At r s
      ((Standard.coefficients m).foldl (fun h b => (h + b) * r) n) := by
  fun_induction backend.consume c prior m generalizing n with
  | case1 c prior m hlt ih =>
    have hlong : 16 < m.length := hlt.1
    have hne : m ≠ [] := by
      rintro rfl
      exact Nat.not_lt_zero _ hlong
    have htake : (m.take 16).length = 16 := List.length_take_of_le hlong.le
    have hblocks : Bytes.blocks blockLen (m.take 16) = [m.take 16] :=
      Bytes.blocks_single (by decide) htake
    have hinterior : c.interior prior (m.take 16) = c.step true (m.take 16) := by
      rw [interior, hblocks]
      rfl
    rw [Standard.coefficients_cons hne, List.foldl_cons]
    apply ih
    change (c.interior prior (m.take 16)).At _ _ _
    rw [hinterior]
    exact h.step_full htake
  | case2 c prior m hlt =>
    refine h.final prior ?_
    by_contra hlong
    exact hlt ⟨Nat.lt_of_not_ge hlong, by decide⟩

end At

end Core

/-! ## Tags -/

/-- **Block by block, a message gets the tag of the standard.** -/
theorem reference_eq (key : Key) (m : Bytes) :
    backend.reference key m = .ok (Standard.tag key m) := by
  have hat := (Core.at_ofKey key).consume 0 m
  rw [Standard.foldl_horner, Nat.zero_mul, Nat.zero_add] at hat
  have hextract : ∀ c : Core, c.extract (Bytes.zeros 16) = c.tag := fun c =>
    List.append_nil c.tag
  change Except.ok ((backend.consume (Core.ofKey key) 0 m).extract (Bytes.zeros 16)) = _
  rw [hextract, hat.tag]
  rfl

theorem tag_nil (key : Key) : Standard.tag key [] = key.toBytes.drop 16 := by
  have hlen : (key.toBytes.drop 16).length = 16 := by
    rw [List.length_drop, length_key]
  have hpolynomial : Standard.polynomial (Standard.multiplier key) [] = 0 := rfl
  rw [Standard.tag, Standard.coefficients_nil, hpolynomial, Nat.zero_mod, Nat.zero_add,
    Standard.pad]
  conv_rhs => rw [← Bytes.toLE_ofLE (key.toBytes.drop 16), hlen]
  apply Bytes.toLE_congr
  norm_num

theorem aligned (lanes : LaneWidth) {size : Nat} (hs : 0 < size) (hd : 16 ∣ size) :
    (backend.withBuffer lanes size).Aligned :=
  Backend.aligned_withBuffer lanes (by decide) hs hd

theorem tag_of_absorbed {lanes : LaneWidth} {size : Nat}
    (hB : (backend.withBuffer lanes size).Aligned) {s : Stream (backend.withBuffer lanes size)}
    {key : Key} {m : Bytes} {pieces : List Bytes} (h : s.Absorbed key m pieces) :
    s.digest = .ok (Standard.tag key m) ∧
      ∀ out : Bytes, out.length = 16 → s.finish out = .ok () (Standard.tag key m) := by
  obtain ⟨d, hd, hdigest, hfinish⟩ := h.digest_eq hB (blockwise.withBuffer lanes size)
  rw [Backend.reference_withBuffer, reference_eq] at hd
  cases hd
  exact ⟨hdigest, hfinish⟩

end StreamDigest.Poly1305

namespace StreamDigest

open Poly1305

theorem OnetimeAuth.updateAll_eq {a : OnetimeAuth} {parts : List Bytes} {s : Stream backend}
    (h : a.stream.updateAll parts = .ok s) : a.updateAll parts = .ok ⟨s⟩ := by
  induction parts generalizing a with
  | nil =>
    cases h
    rfl
  | cons part parts ih =>
    rw [Stream.updateAll, List.foldlM_cons] at h
    rw [OnetimeAuth.updateAll, List.foldlM_cons, OnetimeAuth.update]
    cases hs : a.stream.update part with
    | error e => rw [hs] at h; cases h
    | ok s' =>
      rw [hs] at h
      exact ih h

/-- A message within the limit can be given in any parts. -/
theorem OnetimeAuth.exists_absorbed (key : Key) (parts : List Bytes)
    (h : parts.flatten.length ≤ backend.maxInput) :
    ∃ a pieces, OnetimeAuth.new key >>= (·.updateAll parts) = .ok a ∧
      a.stream.Absorbed key parts.flatten pieces := by
  have hB := aligned .m32 (show 0 < 16 by decide) (Nat.dvd_refl 16)
  have hinit : (backend.withBuffer .m32 16).init key = .ok (Core.ofKey key) := rfl
  obtain ⟨s, pieces, hs, ha⟩ := Stream.exists_absorbed hB hinit parts h
  have hnew : OnetimeAuth.new key = .ok ⟨⟨Core.ofKey key, .empty 16⟩⟩ := rfl
  have hall : (⟨Core.ofKey key, .empty 16⟩ : Stream backend).updateAll parts = .ok s := hs
  exact ⟨⟨s⟩, pieces, by rw [hnew, except_ok_bind, OnetimeAuth.updateAll_eq hall], ha⟩

theorem OnetimeAuth.finish_of_absorbed {a : OnetimeAuth} {key : Key} {m : Bytes}
    {pieces : List Bytes} (h : a.stream.Absorbed key m pieces) {out : Bytes}
    (hout : out.length = 16) : a.stream.finish out = .ok () (Standard.tag key m) :=
  (tag_of_absorbed (aligned .m32 (show 0 < 16 by decide) (Nat.dvd_refl 16)) h).2 out hout

theorem OnetimeAuth.finalize_of_absorbed {a : OnetimeAuth} {key : Key} {m : Bytes}
    {pieces : List Bytes} (h : a.stream.Absorbed key m pieces) :
    a.finalize = .ok (Standard.tag key m) := by
  have hfinish : a.stream.finish (Bytes.zeros tagLen) = .ok () (Standard.tag key m) :=
    finish_of_absorbed h (Bytes.length_zeros 16)
  rw [finalize, InPlace.onZeros, EStateM.run, hfinish]

theorem OnetimeAuth.finalize_eq (key : Key) (parts : List Bytes)
    (h : parts.flatten.length ≤ backend.maxInput) :
    (OnetimeAuth.new key >>= (·.updateAll parts)) >>= finalize =
      .ok (Standard.tag key parts.flatten) := by
  obtain ⟨a, pieces, hnew, ha⟩ := OnetimeAuth.exists_absorbed key parts h
  rw [hnew, except_ok_bind, finalize_of_absorbed ha]

theorem OnetimeAuth.compute_eq (key : Key) (m : Bytes) (h : m.length ≤ backend.maxInput) :
    OnetimeAuth.compute key m = .ok (Standard.tag key m) := by
  have hparts := OnetimeAuth.finalize_eq key [m] (by rwa [List.flatten_singleton])
  rw [List.flatten_singleton] at hparts
  rw [← hparts, OnetimeAuth.compute]
  simp [OnetimeAuth.updateAll]

theorem OnetimeAuth.authenticate_eq (key : Key) (m out : Bytes) (h : m.length ≤ backend.maxInput)
    (hout : out.length = 16) : authenticate key m out = .ok () (Standard.tag key m) := by
  have hinit : (backend.withBuffer .m32 16).init key = .ok (Core.ofKey key) := rfl
  obtain ⟨d, href, honeshot⟩ := Stream.oneshot_eq
    (aligned .m32 (show 0 < 16 by decide) (Nat.dvd_refl 16)) (blockwise.withBuffer .m32 16)
    hinit h hout
  rw [Backend.reference_withBuffer, reference_eq] at href
  cases href
  exact honeshot

/-- **Every stream computes the standard's tag**, whatever the chunks and the size
of the buffer, in one-time authentication as well. The tag of the empty message
is the second half of the key. -/
theorem tag_of_streams (lanes : LaneWidth) {size : Nat} (hs : 0 < size) (hd : 16 ∣ size) :
    (∀ (key : Key) (chunks : List Bytes), chunks.flatten.length ≤ backend.maxInput →
      ∃ s, Stream.create (backend.withBuffer lanes size) key >>= (·.updateAll chunks) = .ok s ∧
        s.digest = .ok (Standard.tag key chunks.flatten) ∧
        ∀ out : Bytes, out.length = 16 →
          s.finish out = .ok () (Standard.tag key chunks.flatten)) ∧
    (∀ (actions : List (Action Key)), ∀ t ∈ run (backend.withBuffer lanes size) actions,
      t.stream.digest = .ok (Standard.tag t.params t.message) ∧
        ∀ out : Bytes, out.length = 16 →
          t.stream.finish out = .ok () (Standard.tag t.params t.message)) ∧
    (∀ (key : Key) (m out : Bytes), m.length ≤ backend.maxInput → out.length = 16 →
      OnetimeAuth.authenticate key m out = .ok () (Standard.tag key m)) ∧
    (∀ (key : Key) (m : Bytes), m.length ≤ backend.maxInput →
      OnetimeAuth.compute key m = .ok (Standard.tag key m)) ∧
    (∀ (key : Key) (parts : List Bytes), parts.flatten.length ≤ backend.maxInput →
      (OnetimeAuth.new key >>= (·.updateAll parts)) >>= OnetimeAuth.finalize =
        .ok (Standard.tag key parts.flatten)) ∧
    ∀ key : Key, Standard.tag key [] = key.toBytes.drop 16 := by
  have hB := aligned lanes hs hd
  refine ⟨?_, ?_, OnetimeAuth.authenticate_eq, OnetimeAuth.compute_eq, OnetimeAuth.finalize_eq,
    tag_nil⟩
  · intro key chunks hm
    have hinit : (backend.withBuffer lanes size).init key = .ok (Core.ofKey key) := rfl
    obtain ⟨s, pieces, hs, h⟩ := Stream.exists_absorbed hB hinit chunks hm
    exact ⟨s, hs, tag_of_absorbed hB h⟩
  · intro actions t ht
    obtain ⟨pieces, -, h⟩ := sound_of_mem_run hB ht
    exact tag_of_absorbed hB h

/-- The example of the standard, section 2.5.2, in one piece and in two. -/
theorem tag_of_standard_example :
    ∃ (key : Key) (m tag : Bytes),
      key = #v[0x85, 0xd6, 0xbe, 0x78, 0x57, 0x55, 0x6d, 0x33, 0x7f, 0x44, 0x52, 0xfe,
        0x42, 0xd5, 0x06, 0xa8, 0x01, 0x03, 0x80, 0x8a, 0xfb, 0x0d, 0xb2, 0xfd,
        0x4a, 0xbf, 0xf6, 0xaf, 0x41, 0x49, 0xf5, 0x1b] ∧
      m = [0x43, 0x72, 0x79, 0x70, 0x74, 0x6f, 0x67, 0x72, 0x61, 0x70, 0x68, 0x69,
        0x63, 0x20, 0x46, 0x6f, 0x72, 0x75, 0x6d, 0x20, 0x52, 0x65, 0x73, 0x65,
        0x61, 0x72, 0x63, 0x68, 0x20, 0x47, 0x72, 0x6f, 0x75, 0x70] ∧
      tag = [0xa8, 0x06, 0x1d, 0xc1, 0x30, 0x51, 0x36, 0xc6, 0xc2, 0x2b, 0x8b, 0xaf,
        0x0c, 0x01, 0x27, 0xa9] ∧
      OnetimeAuth.compute key m = .ok tag ∧
      ∃ s, Stream.create (backend.withBuffer .m128 32) key >>=
          (·.updateAll [m.take 20, m.drop 20]) = .ok s ∧ s.digest = .ok tag := by
  refine ⟨_, _, _, rfl, rfl, rfl, ?_⟩
  obtain ⟨hchunks, -, -, hcompute, -⟩ :=
    tag_of_streams .m128 (show 0 < 32 by decide) (by decide)
  have htag : Standard.tag
      #v[0x85, 0xd6, 0xbe, 0x78, 0x57, 0x55, 0x6d, 0x33, 0x7f, 0x44, 0x52, 0xfe,
        0x42, 0xd5, 0x06, 0xa8, 0x01, 0x03, 0x80, 0x8a, 0xfb, 0x0d, 0xb2, 0xfd,
        0x4a, 0xbf, 0xf6, 0xaf, 0x41, 0x49, 0xf5, 0x1b]
      [0x43, 0x72, 0x79, 0x70, 0x74, 0x6f, 0x67, 0x72, 0x61, 0x70, 0x68, 0x69,
        0x63, 0x20, 0x46, 0x6f, 0x72, 0x75, 0x6d, 0x20, 0x52, 0x65, 0x73, 0x65,
        0x61, 0x72, 0x63, 0x68, 0x20, 0x47, 0x72, 0x6f, 0x75, 0x70] =
      [0xa8, 0x06, 0x1d, 0xc1, 0x30, 0x51, 0x36, 0xc6, 0xc2, 0x2b, 0x8b, 0xaf,
        0x0c, 0x01, 0x27, 0xa9] := by
    decide +kernel
  rw [← htag]
  exact ⟨hcompute _ _ (by decide), hchunks _ _ (by decide) |>.imp fun s h => ⟨h.1, h.2.1⟩⟩

end StreamDigest
