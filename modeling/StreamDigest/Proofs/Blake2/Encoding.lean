import StreamDigest.Proofs.Bytes.Endian
import StreamDigest.Proofs.Blake2.Hash

/-!
# What BLAKE2 hashes, it hashes once

A hash comes down to the chaining value at the start and the blocks that go
through the compression function, each with its counter and the mark of the
last one (`Transcript`). Zeros are filled in at three places: behind the key,
behind the message, and for a salt or a personalization that is absent. What is
filled in can be told: the parameter block has the length of the key
(`block_eq_iff`), and the counter at the mark gives that of the message
(`messageInputs_inj`), with the key block in front or not (`inputs_start_inj`).
-/

namespace StreamDigest.Blake2

variable {v : Variant} {p p' : Params}

/-! ## The parameter block -/

theorem two_pow_wordBits (v : Variant) : 256 ^ v.wordLen = 2 ^ v.wordBits := by
  cases v <;> decide

theorem wordsOf_inj {n : Nat} {as bs : Bytes} (ha : as.length = n * v.wordLen)
    (hb : bs.length = n * v.wordLen) (h : wordsOf v n as = wordsOf v n bs) : as = bs := by
  refine Bytes.eq_of_slices ha hb fun i hi => ?_
  have hlen : ∀ cs : Bytes, cs.length = n * v.wordLen →
      ((cs.drop (i * v.wordLen)).take v.wordLen).length = v.wordLen := by
    intro cs hcs
    have hle := Nat.mul_le_mul_right v.wordLen (Nat.succ_le_of_lt hi)
    rw [Nat.succ_mul] at hle
    rw [List.length_take, List.length_drop]
    omega
  have hlt : ∀ cs : Bytes, cs.length = n * v.wordLen →
      Bytes.ofLE ((cs.drop (i * v.wordLen)).take v.wordLen) < 2 ^ v.wordBits := by
    intro cs hcs
    rw [← two_pow_wordBits]
    exact (Bytes.ofLE_lt _).trans_eq (by rw [hlen cs hcs])
  have hword := congrArg BitVec.toNat (congrFun (congrArg entries h) ⟨i, hi⟩)
  rw [wordsOf, wordsOf, entries_ofFn, entries_ofFn, BitVec.toNat_ofNat, BitVec.toNat_ofNat,
    Nat.mod_eq_of_lt (hlt as ha), Nat.mod_eq_of_lt (hlt bs hb)] at hword
  exact Bytes.ofLE_inj ((hlen as ha).trans (hlen bs hb).symm) hword

theorem length_field {bs : Bytes} (h : bs = [] ∨ bs.length = Standard.maxBytes v / 4) :
    (Standard.field v bs).length = Standard.maxBytes v / 4 := by
  unfold Standard.field
  split_ifs with h0
  · exact Bytes.length_zeros _
  · exact h.resolve_left h0

theorem length_block (h : Standard.Admissible v p) : (p.block v).length = 8 * v.wordLen := by
  rw [block_eq h, Standard.parameterBlock]
  simp only [List.length_append, length_field h.salt, length_field h.personal, Bytes.length_zeros]
  cases v <;> rfl

/-- A byte has room for the lengths. -/
theorem ofNat_length_inj {m n : Nat} (hm : m ≤ Standard.maxBytes v) (hn : n ≤ Standard.maxBytes v)
    (h : UInt8.ofNat m = UInt8.ofNat n) : m = n := by
  have hmax : Standard.maxBytes v < 256 := by cases v <;> decide
  have hmod := congrArg UInt8.toNat h
  rw [UInt8.toNat_ofNat', UInt8.toNat_ofNat'] at hmod
  omega

/-- The parameter block tells all parameters but the key, and the length of that. -/
theorem block_eq_iff (h : Standard.Admissible v p) (h' : Standard.Admissible v p') :
    p.block v = p'.block v ↔
      p.digestLen = p'.digestLen ∧ p.key.length = p'.key.length ∧
        Standard.field v p.salt = Standard.field v p'.salt ∧
        Standard.field v p.personal = Standard.field v p'.personal := by
  rw [block_eq h, block_eq h', Standard.parameterBlock, Standard.parameterBlock]
  constructor
  · intro heq
    obtain ⟨heq, hpersonal⟩ := List.append_inj' heq
      ((length_field h.personal).trans (length_field h'.personal).symm)
    obtain ⟨heq, hsalt⟩ := List.append_inj' heq
      ((length_field h.salt).trans (length_field h'.salt).symm)
    obtain ⟨hlengths, -⟩ := List.append_inj heq rfl
    simp only [List.cons.injEq, and_true] at hlengths
    exact ⟨ofNat_length_inj h.digestLen_le h'.digestLen_le hlengths.1,
      ofNat_length_inj h.key_le h'.key_le hlengths.2, hsalt, hpersonal⟩
  · rintro ⟨hdigest, hkey, hsalt, hpersonal⟩
    rw [hdigest, hkey, hsalt, hpersonal]

/-- The initial value cancels out. -/
theorem chain_start_inj (h : Standard.Admissible v p) (h' : Standard.Admissible v p')
    (heq : (Core.start v p).chain = (Core.start v p').chain) : p.block v = p'.block v := by
  refine wordsOf_inj (length_block h) (length_block h') (Vector.ext fun i hi => ?_)
  have hword : (Core.start v p).chain[i] = (Core.start v p').chain[i] := by rw [heq]
  unfold Core.start at hword
  rw [Vector.getElem_zipWith, Vector.getElem_zipWith] at hword
  exact (BitVec.xor_right_inj _).1 hword

/-! ## The inputs -/

/-- The last input and no other is marked, and the counters increase. -/
structure Sequential (xs : List Input) : Prop where
  marked : ∃ front final, xs = front ++ [final] ∧ final.last = true ∧ ∀ x ∈ front, x.last = false
  counters : xs.Pairwise fun x y => x.counter < y.counter

theorem Sequential.single {x : Input} (h : x.last = true) : Sequential [x] where
  marked := ⟨[], x, rfl, h, by simp⟩
  counters := List.pairwise_singleton _ x

theorem Sequential.cons {x : Input} {xs : List Input} (hx : x.last = false)
    (hlt : ∀ y ∈ xs, x.counter < y.counter) (h : Sequential xs) : Sequential (x :: xs) where
  marked := by
    obtain ⟨front, final, rfl, hfinal, hfront⟩ := h.marked
    refine ⟨x :: front, final, rfl, hfinal, fun y hy => ?_⟩
    rcases List.mem_cons.1 hy with rfl | hy
    · exact hx
    · exact hfront y hy
  counters := List.pairwise_cons.2 ⟨hlt, h.counters⟩

/-- The inputs of a message are blocks, and count bytes of the message. -/
theorem mem_messageInputs {base : Nat} {m : Bytes} {x : Input} (hx : x ∈ messageInputs v base m) :
    x.block.length = v.blockLen ∧ x.counter ≤ base + m.length ∧ (m ≠ [] → base < x.counter) := by
  have hpos := blockLen_pos v
  fun_induction messageInputs v base m with
  | case1 base m h ih =>
    rcases List.mem_cons.1 hx with rfl | hx
    · exact ⟨List.length_take_of_le h.le, by dsimp only; omega, fun _ => by dsimp only; omega⟩
    · obtain ⟨hblock, hle, hlt⟩ := ih hx
      have hdrop := List.length_drop (i := v.blockLen) (l := m)
      have hne : m.drop v.blockLen ≠ [] := List.ne_nil_of_length_pos (by omega)
      have := hlt hne
      exact ⟨hblock, by omega, fun _ => by omega⟩
  | case2 base m h =>
    rw [List.mem_singleton.1 hx]
    refine ⟨Bytes.length_padTo (Nat.not_lt.1 h), Nat.le_refl _, fun hm => ?_⟩
    have := List.length_pos_of_ne_nil hm
    dsimp only
    omega

theorem sequential_messageInputs (base : Nat) (m : Bytes) :
    Sequential (messageInputs v base m) := by
  fun_induction messageInputs v base m with
  | case1 base m h ih =>
    refine ih.cons rfl fun y hy => (mem_messageInputs hy).2.2 ?_
    exact List.ne_nil_of_length_pos (by rw [List.length_drop]; omega)
  | case2 base m h => exact .single rfl

/-- From the same count on, the inputs tell the message: up to the mark they are
its blocks, and the counter at the mark tells what of the last one is filled in. -/
theorem messageInputs_inj {base : Nat} {m m' : Bytes}
    (h : messageInputs v base m = messageInputs v base m') : m = m' := by
  fun_induction messageInputs v base m generalizing m' with
  | case1 base m hm ih =>
    rw [messageInputs.eq_def v base m'] at h
    split_ifs at h with hm'
    all_goals simp only [List.cons.injEq, Input.mk.injEq] at h
    · rw [← List.take_append_drop v.blockLen m, h.1.1, ih h.2, List.take_append_drop]
    · exact absurd h.1.2.2 Bool.false_ne_true
  | case2 base m hm =>
    rw [messageInputs.eq_def v base m'] at h
    split_ifs at h with hm'
    all_goals simp only [List.cons.injEq, Input.mk.injEq] at h
    · exact absurd h.1.2.2.symm Bool.false_ne_true
    · exact Bytes.padTo_inj (by omega) h.1.1

/-- The inputs tell the key and the message, if the length of the key is known. -/
theorem inputs_start_inj (hlen : p.key.length = p'.key.length) {m m' : Bytes}
    (h : (Core.start v p).inputs 0 m = (Core.start v p').inputs 0 m') :
    p.key = p'.key ∧ m = m' := by
  by_cases hkey : p.key = []
  · have hkey' : p'.key = [] := by
      rw [← List.length_eq_zero_iff, ← hlen, hkey, List.length_nil]
    rw [Core.inputs_unkeyed hkey, Core.inputs_unkeyed hkey'] at h
    exact ⟨hkey.trans hkey'.symm, messageInputs_inj h⟩
  · have hkey' : p'.key ≠ [] := by
      rwa [← List.length_pos_iff, ← hlen, List.length_pos_iff]
    rw [Core.inputs_keyed hkey, Core.inputs_keyed hkey'] at h
    -- the mark on the key block tells if there is a message
    split_ifs at h with hm hm' hm'
    all_goals simp only [List.cons.injEq, Input.mk.injEq] at h
    · exact ⟨Bytes.padTo_inj hlen h.1.1, hm.trans hm'.symm⟩
    · exact absurd h.1.2.2.symm Bool.false_ne_true
    · exact absurd h.1.2.2 Bool.false_ne_true
    · exact ⟨Bytes.padTo_inj hlen h.1.1, messageInputs_inj h.2⟩

theorem sequential_start (p : Params) (m : Bytes) : Sequential ((Core.start v p).inputs 0 m) := by
  by_cases hkey : p.key = []
  · rw [Core.inputs_unkeyed hkey]
    exact sequential_messageInputs 0 m
  · rw [Core.inputs_keyed hkey]
    split_ifs with hm
    · exact .single rfl
    · exact (sequential_messageInputs _ m).cons rfl fun y hy => (mem_messageInputs hy).2.2 hm

/-- A counter of two words has room for the longest message behind a key block. -/
theorem maxInput_lt (v : Variant) :
    v.maxInput + v.blockLen < 2 ^ (2 * v.wordBits) ∧ v.maxInput < 2 ^ 64 := by
  cases v <;> decide

/-- Every input is a block, and its counter fits the two words that it is put in. -/
theorem mem_inputs_start (h : Standard.Admissible v p) {m : Bytes} (hm : m.length ≤ v.maxInput)
    {x : Input} (hx : x ∈ (Core.start v p).inputs 0 m) :
    x.block.length = v.blockLen ∧ x.counter < 2 ^ (2 * v.wordBits) := by
  obtain ⟨hmax, -⟩ := maxInput_lt v
  have hblock : (Bytes.padTo v.blockLen p.key).length = v.blockLen := by
    have hle : Standard.maxBytes v ≤ v.blockLen := by cases v <;> decide
    exact Bytes.length_padTo (h.key_le.trans hle)
  by_cases hkey : p.key = []
  · rw [Core.inputs_unkeyed hkey] at hx
    obtain ⟨hlen, hle, -⟩ := mem_messageInputs hx
    exact ⟨hlen, by omega⟩
  · rw [Core.inputs_keyed hkey] at hx
    split_ifs at hx with h0
    · rw [List.mem_singleton.1 hx]
      exact ⟨hblock, by dsimp only; omega⟩
    · rcases List.mem_cons.1 hx with rfl | hx
      · exact ⟨hblock, by dsimp only; omega⟩
      · obtain ⟨hlen, hle, -⟩ := mem_messageInputs hx
        exact ⟨hlen, by omega⟩

/-! ## Transcripts -/

/-- What a hash comes down to: the chaining value at the start, and all that goes
through the compression function. -/
structure Transcript (v : Variant) where
  start : Vector v.Word 8
  inputs : List Input

/-- The chaining value at the end. -/
def Transcript.final (e : Transcript v) : Vector v.Word 8 :=
  e.inputs.foldl (fun h x => (compress h x).1) e.start

section
variable {lanes : LaneWidth} {size : Nat}

/-- The transcript of the digest that a stream gives: what its updates fed to the
compression function since it got its parameters, and what finishing feeds from a
copy of the core. -/
def transcriptOf (t : Traced ((backend v).withBuffer lanes size)) :
    Except Error (Transcript v) := do
  let c ← Core.ofParams v t.params
  let closing ← t.stream.finishCalls t.stream.digestLen
  return ⟨c.chain, c.fed t.calls ++ t.stream.core.fed closing⟩

variable {actions : List (Action Params)} {t : Traced ((backend v).withBuffer lanes size)}

/-- The transcript depends on parameters and message only. -/
theorem transcriptOf_eq (hB : ((backend v).withBuffer lanes size).Aligned)
    (ht : t ∈ run ((backend v).withBuffer lanes size) actions) :
    Standard.Admissible v t.params ∧ t.message.length ≤ v.maxInput ∧
      transcriptOf t =
        .ok ⟨(Core.start v t.params).chain, (Core.start v t.params).inputs 0 t.message⟩ := by
  obtain ⟨pieces, hcalls, h⟩ := sound_of_mem_run hB ht
  obtain ⟨hp, -, hcore⟩ := start_of_absorbed h
  obtain ⟨closing, whole, last, hclosing, hall, hm, hwhole, hle, hlast⟩ := h.exists_calls hB
  refine ⟨hp, h.within, ?_⟩
  rw [transcriptOf, Core.ofParams_eq hp, except_ok_bind, hclosing, except_ok_bind, hcore, hcalls,
    ← Core.fed_append, hall, ← hm,
    ← (Core.start v t.params).fed_eq 0 whole hwhole hle hlast t.stream.digestLen]
  rfl

/-- The digest is read off the chaining value that the transcript ends with. -/
theorem digest_of_transcript (hB : ((backend v).withBuffer lanes size).Aligned)
    (ht : t ∈ run ((backend v).withBuffer lanes size) actions) {e : Transcript v}
    (he : transcriptOf t = .ok e) :
    t.stream.digest = .ok ((bytesOf e.final).take t.params.digestLen) := by
  obtain ⟨pieces, hcalls, h⟩ := sound_of_mem_run hB ht
  obtain ⟨hp, hlen, hcore⟩ := start_of_absorbed h
  obtain ⟨closing, -, -, hclosing, -⟩ := h.exists_calls hB
  rw [transcriptOf, Core.ofParams_eq hp, except_ok_bind, hclosing, except_ok_bind] at he
  cases he
  have hfinal : ((backend v).applyAll t.stream.core closing).chain =
      (t.stream.core.fed closing).foldl (fun h x => (compress h x).1)
        (((Core.start v t.params).fed t.calls).foldl (fun h x => (compress h x).1)
          (Core.start v t.params).chain) := by
    rw [Core.chain_applyAll, ← Core.chain_applyAll _ t.calls, hcalls, ← hcore]
  rw [Transcript.final, List.foldl_append, ← hfinal, ← hlen, Stream.digest, InPlace.onZeros,
    EStateM.run, Stream.finish, Bytes.length_zeros, hclosing]
  change Except.ok ((bytesOf _).take (Bytes.zeros t.stream.digestLen).length) = _
  rw [Bytes.length_zeros]
  rfl

end

/-- **A transcript belongs to one key and one message.** Whatever the buffers and
the chunks, all parameters that pass the check and all messages within the limit
are hashed; the digest is that of the transcript, in which exactly the last block
is marked and the counters increase; and two transcripts are the same only for
the same digest length, key, message, salt and personalization, where an absent
one of these two is zeros. -/
theorem transcript_injective (v : Variant) (lanes lanes' : LaneWidth) {size size' : Nat}
    (hs : 0 < size) (hd : v.blockLen ∣ size) (hs' : 0 < size') (hd' : v.blockLen ∣ size') :
    (∀ (p : Params) (m : Bytes), p.check v = .ok () → m.length ≤ v.maxInput →
      ∃ t ∈ run ((backend v).withBuffer lanes size) [.create p, .update 0 m],
        t.params = p ∧ t.message = m) ∧
    (∀ actions, ∀ t ∈ run ((backend v).withBuffer lanes size) actions,
      t.params.check v = .ok () ∧ t.message.length ≤ v.maxInput ∧
      ∃ e, transcriptOf t = .ok e ∧
        t.stream.digest = .ok ((bytesOf e.final).take t.params.digestLen) ∧
        Sequential e.inputs ∧
        ∀ x ∈ e.inputs, x.block.length = v.blockLen ∧ x.counter < 2 ^ (2 * v.wordBits)) ∧
    ∀ actions actions', ∀ t ∈ run ((backend v).withBuffer lanes size) actions,
      ∀ t' ∈ run ((backend v).withBuffer lanes' size') actions',
        transcriptOf t = transcriptOf t' ↔
          t.params.digestLen = t'.params.digestLen ∧ t.params.key = t'.params.key ∧
          t.message = t'.message ∧
          Standard.field v t.params.salt = Standard.field v t'.params.salt ∧
          Standard.field v t.params.personal = Standard.field v t'.params.personal := by
  have hB := (backend v).aligned_withBuffer lanes (blockLen_pos v) hs hd
  have hB' := (backend v).aligned_withBuffer lanes' (blockLen_pos v) hs' hd'
  refine ⟨fun p m hp hm => ?_, fun actions t ht => ?_, fun actions actions' t ht t' ht' => ?_⟩
  · have hinit : ((backend v).withBuffer lanes size).init p = .ok (Core.start v p) :=
      Core.ofParams_eq (check_eq_ok.1 hp)
    exact exists_mem_run hB hinit hm
  · obtain ⟨hp, hm, htranscript⟩ := transcriptOf_eq hB ht
    exact ⟨check_eq_ok.2 hp, hm, _, htranscript, digest_of_transcript hB ht htranscript,
      sequential_start _ _, fun x hx => mem_inputs_start hp hm hx⟩
  · obtain ⟨hp, -, htranscript⟩ := transcriptOf_eq hB ht
    obtain ⟨hp', -, htranscript'⟩ := transcriptOf_eq hB' ht'
    rw [htranscript, htranscript']
    constructor
    · intro heq
      simp only [Except.ok.injEq, Transcript.mk.injEq] at heq
      obtain ⟨hdigest, hlen, hsalt, hpersonal⟩ :=
        (block_eq_iff hp hp').1 (chain_start_inj hp hp' heq.1)
      obtain ⟨hkey, hmessage⟩ := inputs_start_inj hlen heq.2
      exact ⟨hdigest, hkey, hmessage, hsalt, hpersonal⟩
    · rintro ⟨hdigest, hkey, hmessage, hsalt, hpersonal⟩
      have hblock := (block_eq_iff hp hp').2 ⟨hdigest, congrArg _ hkey, hsalt, hpersonal⟩
      have hchain : (Core.start v t.params).chain = (Core.start v t'.params).chain := by
        rw [Core.start, Core.start, hblock]
      rw [hchain, inputs_start, inputs_start, hkey, hmessage]

/-- A key without a message goes in like the padded key as a message without a key,
and only the chaining value at the start tells them apart. -/
theorem transcript_injective_of_key_block :
    ∃ t ∈ run ((backend .s).withBuffer .m128 256) [.create ⟨32, [1], [], []⟩, .update 0 []],
      ∃ t' ∈ run ((backend .s).withBuffer .m128 256)
          [.create ⟨32, [], [], []⟩, .update 0 (Bytes.padTo 64 [1])],
        ∃ e e', transcriptOf t = .ok e ∧ transcriptOf t' = .ok e' ∧
          e.inputs = [⟨Bytes.padTo 64 [1], 64, true⟩] ∧ e'.inputs = e.inputs ∧
          e.start ≠ e'.start := by
  obtain ⟨hruns, -, htells⟩ := transcript_injective .s .m128 .m128 (show 0 < 256 by decide)
    (by decide) (show 0 < 256 by decide) (by decide)
  obtain ⟨t, ht, hparams, hmessage⟩ := hruns ⟨32, [1], [], []⟩ [] rfl (by decide)
  obtain ⟨t', ht', hparams', hmessage'⟩ :=
    hruns ⟨32, [], [], []⟩ (Bytes.padTo 64 [1]) rfl (by decide)
  have hB := (backend .s).aligned_withBuffer .m128 (blockLen_pos .s) (show 0 < 256 by decide)
    (by decide)
  obtain ⟨-, -, he⟩ := transcriptOf_eq hB ht
  obtain ⟨-, -, he'⟩ := transcriptOf_eq hB ht'
  have hinputs : (Core.start .s t.params).inputs 0 t.message =
      [⟨Bytes.padTo 64 [1], 64, true⟩] := by
    rw [hparams, hmessage, Core.inputs_keyed (List.cons_ne_nil _ _), if_pos rfl]
    rfl
  have hinputs' : (Core.start .s t'.params).inputs 0 t'.message =
      [⟨Bytes.padTo 64 [1], 64, true⟩] := by
    rw [hparams', hmessage', Core.inputs_unkeyed rfl, messageInputs, if_neg (by decide)]
    rfl
  refine ⟨t, ht, t', ht', _, _, he, he', hinputs, hinputs'.trans hinputs.symm, fun heq => ?_⟩
  -- with the same start the two would be one transcript, and the messages the same
  have hstart : (Core.start .s t.params).chain = (Core.start .s t'.params).chain := heq
  have hsame : transcriptOf t = transcriptOf t' := by
    rw [he, he', hstart, hinputs, hinputs']
  have hboth := ((htells _ _ t ht t' ht').1 hsame).2.2.1
  rw [hmessage, hmessage'] at hboth
  cases hboth

end StreamDigest.Blake2
