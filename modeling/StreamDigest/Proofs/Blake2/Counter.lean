import StreamDigest.Proofs.Blake2.Encoding

/-!
# Counters

A counter is a sum of machine integers, as wide as the two words that it is put
in. Here the sums are written once more in a form that fails where one exceeds
its width. Along a run none does (`fedChecked_eq`): the engine passes the exact
number of bytes before each call and refuses input beyond the limit, which leaves
room for the key block. So a counter is the number of bytes it stands for
(`CountsBytes`), and its two words are those of that number.
-/

namespace StreamDigest.Blake2

variable {v : Variant}

/-! ## Checked counters -/

/-- The bits of a counter. -/
def Variant.counterBits (v : Variant) : Nat := 2 * v.wordBits

/-- The number, if it fits `w` bits. -/
def within (w x : Nat) : Option Nat := if x < 2 ^ w then some x else none

theorem within_eq {w x : Nat} (h : x < 2 ^ w) : within w x = some x := if_pos h

namespace Core

/-- The inputs of whole blocks, if no sum exceeds the counter and no length a word. -/
def interiorInputsChecked (c : Core v) (prior : Nat) (blocks : Bytes) : Option (List Input) := do
  let base ← within v.counterBits (c.counterOffset + prior)
  let inputs ← (Bytes.blocks v.blockLen blocks).zipIdx.mapM fun (block, i) => do
    let len ← within 64 ((i + 1) * v.blockLen)
    return ⟨block, ← within v.counterBits (base + len), false⟩
  return c.keyInput false ++ inputs

/-- The inputs of the last block, if no sum exceeds the counter. -/
def finalInputsChecked (c : Core v) (prior : Nat) (last : Bytes) : Option (List Input) :=
  if c.pendingKey.isSome ∧ last = [] then some (c.keyInput true)
  else do
    let base ← within v.counterBits (c.counterOffset + prior)
    let counter ← within v.counterBits (base + last.length)
    return c.keyInput false ++ [⟨Bytes.padTo v.blockLen last, counter, true⟩]

def inputsOfChecked (c : Core v) : Call → Option (List Input)
  | .interior prior blocks => c.interiorInputsChecked prior blocks
  | .final prior last => c.finalInputsChecked prior last
  | .extract _ => some []

/-- What calls in order feed to the compression function, if no sum exceeds its width. -/
def fedChecked (c : Core v) : List Call → Option (List Input)
  | [] => some []
  | call :: calls => do
    let inputs ← c.inputsOfChecked call
    return inputs ++ (← fedChecked ((backend v).apply c call) calls)

theorem mapM_eq_some {α β : Type} {f : α → Option β} {g : α → β} {xs : List α}
    (h : ∀ x ∈ xs, f x = some (g x)) : xs.mapM f = some (xs.map g) := by
  induction xs with
  | nil => rfl
  | cons x xs ih =>
    rw [List.mapM_cons, h x List.mem_cons_self, ih fun y hy => h y (List.mem_cons_of_mem _ hy)]
    rfl

variable (c : Core v) {prior : Nat}

/-- A block and its index in a call that counts from `base`, as an input, if the sums fit. -/
def numberedChecked (v : Variant) (base : Nat) : Bytes × Nat → Option Input
  | (block, i) => do
    let len ← within 64 ((i + 1) * v.blockLen)
    return ⟨block, ← within v.counterBits (base + len), false⟩

theorem numberedChecked_eq {base : Nat} {blocks : Bytes}
    (h : base + blocks.length < 2 ^ v.counterBits) (hlen : blocks.length < 2 ^ 64)
    {block : Bytes} {i : Nat} (hmem : (block, i) ∈ (Bytes.blocks v.blockLen blocks).zipIdx) :
    numberedChecked v base (block, i) = some ⟨block, base + (i + 1) * v.blockLen, false⟩ := by
  -- a block ends within the blocks
  have hi : i < blocks.length / v.blockLen := by
    rw [← Bytes.length_blocks]
    exact (List.getElem?_eq_some_iff.1 (List.mk_mem_zipIdx_iff_getElem?.1 hmem)).1
  have hend : (i + 1) * v.blockLen ≤ blocks.length :=
    (Nat.mul_le_mul_right _ hi).trans (Nat.div_mul_le_self _ _)
  have hsmall : within 64 ((i + 1) * v.blockLen) = some ((i + 1) * v.blockLen) :=
    within_eq (by omega)
  have hsum : within v.counterBits (base + (i + 1) * v.blockLen) =
      some (base + (i + 1) * v.blockLen) := within_eq (by omega)
  simp only [numberedChecked, hsmall, hsum, Option.bind_eq_bind, Option.bind_some, Option.pure_def]

theorem interiorInputsChecked_eq_bind (blocks : Bytes) :
    c.interiorInputsChecked prior blocks = do
      let base ← within v.counterBits (c.counterOffset + prior)
      let inputs ← (Bytes.blocks v.blockLen blocks).zipIdx.mapM (numberedChecked v base)
      return c.keyInput false ++ inputs := rfl

theorem interiorInputsChecked_eq {blocks : Bytes}
    (h : c.counterOffset + (prior + blocks.length) < 2 ^ v.counterBits)
    (hlen : blocks.length < 2 ^ 64) :
    c.interiorInputsChecked prior blocks = some (c.interiorInputs prior blocks) := by
  have hinputs : (Bytes.blocks v.blockLen blocks).zipIdx.mapM
      (numberedChecked v (c.counterOffset + prior)) =
        some ((Bytes.blocks v.blockLen blocks).zipIdx.map fun (block, i) =>
          ⟨block, c.counterOffset + prior + (i + 1) * v.blockLen, false⟩) :=
    mapM_eq_some fun _ hmem => numberedChecked_eq (by omega) hlen hmem
  rw [interiorInputsChecked_eq_bind, within_eq (by omega), Option.bind_eq_bind, Option.bind_some,
    hinputs, interiorInputs, List.mapIdx_eq_zipIdx_map]
  rfl

theorem finalInputsChecked_eq {last : Bytes}
    (h : c.counterOffset + (prior + last.length) < 2 ^ v.counterBits) :
    c.finalInputsChecked prior last = some (c.finalInputs prior last) := by
  unfold finalInputsChecked finalInputs
  split_ifs
  · rfl
  · rw [within_eq (by omega), Option.bind_eq_bind, Option.bind_some, within_eq (by omega)]
    rfl

/-- Where a call ends in the message. -/
def endOf : Call → Nat
  | .interior prior blocks => prior + blocks.length
  | .final prior last => prior + last.length
  | .extract _ => 0

/-- The calls for a message end within it. -/
theorem endOf_le {whole : List Bytes} {last : Bytes} {len : Nat} {call : Call}
    (h : call ∈ interiorCalls 0 whole ++
      [.final (0 + whole.flatten.length) last, .extract len]) :
    endOf call ≤ (whole.flatten ++ last).length := by
  rw [List.length_append]
  rcases List.mem_append.1 h with h | h
  · obtain ⟨at', piece, rfl, -, -, hend⟩ := mem_interiorCalls h
    exact (hend.trans_eq (Nat.zero_add _)).trans (Nat.le_add_right _ _)
  · rcases List.mem_cons.1 h with rfl | h
    · exact (congrArg (· + last.length) (Nat.zero_add _)).le
    · rw [List.mem_singleton.1 h]
      exact Nat.zero_le _

theorem counterOffset_le : c.counterOffset ≤ v.blockLen := by
  unfold counterOffset
  split_ifs
  · exact Nat.le_refl _
  · exact Nat.zero_le _

/-- The counter has room for the longest message behind a key block. -/
theorem fits_of_le {n : Nat} (h : n ≤ v.maxInput) :
    c.counterOffset + n < 2 ^ v.counterBits ∧ n < 2 ^ 64 := by
  have hmax : v.maxInput + v.blockLen < 2 ^ v.counterBits ∧ v.maxInput < 2 ^ 64 :=
    maxInput_lt v
  have hoffset := c.counterOffset_le
  exact ⟨by omega, by omega⟩

theorem counterOffset_apply (call : Call) :
    ((backend v).apply c call).counterOffset = c.counterOffset := by
  cases call with
  | interior prior blocks => exact c.absorb_counterOffset _
  | final prior last => exact c.absorb_counterOffset _
  | extract len => rfl

theorem counterOffset_applyAll (calls : List Call) :
    ((backend v).applyAll c calls).counterOffset = c.counterOffset := by
  induction calls generalizing c with
  | nil => rfl
  | cons call calls ih => exact (ih _).trans (c.counterOffset_apply call)

/-- Calls that end early enough exceed nothing. -/
theorem fedChecked_eq {calls : List Call}
    (h : ∀ call ∈ calls, c.counterOffset + endOf call < 2 ^ v.counterBits ∧ endOf call < 2 ^ 64) :
    c.fedChecked calls = some (c.fed calls) := by
  induction calls generalizing c with
  | nil => rfl
  | cons call calls ih =>
    have hcall : c.inputsOfChecked call = some (c.inputsOf call) := by
      obtain ⟨hsum, hlen⟩ := h call List.mem_cons_self
      cases call with
      | interior prior blocks =>
        exact c.interiorInputsChecked_eq hsum ((Nat.le_add_left _ _).trans_lt hlen)
      | final prior last => exact c.finalInputsChecked_eq hsum
      | extract len => rfl
    have hrest := ih ((backend v).apply c call) fun call' hmem => by
      rw [counterOffset_apply]
      exact h call' (List.mem_cons_of_mem _ hmem)
    rw [fedChecked, hcall, hrest]
    rfl

/-- A last block that ends where the counter cannot count exceeds it. -/
theorem finalInputsChecked_eq_none {last : Bytes} (hlast : last ≠ [])
    (h : 2 ^ v.counterBits ≤ c.counterOffset + (prior + last.length)) :
    c.finalInputsChecked prior last = none := by
  rw [finalInputsChecked, if_neg fun h0 => hlast h0.2]
  by_cases hbase : c.counterOffset + prior < 2 ^ v.counterBits
  · rw [within_eq hbase, Option.bind_eq_bind, Option.bind_some, within, if_neg (by omega)]
    rfl
  · rw [within, if_neg hbase]
    rfl

end Core

/-! ## What is counted -/

/-- Pieces filled up to blocks, each with the number of bytes up to its end if `base` bytes
precede them. -/
def counted (v : Variant) (base : Nat) (pieces : List Bytes) : List (Bytes × Nat) :=
  pieces.mapIdx fun i piece =>
    (Bytes.padTo v.blockLen piece, base + (pieces.take (i + 1)).flatten.length)

/-- The pieces of a message that are compressed. Without a key there is at least one. -/
def messagePieces (v : Variant) (key m : Bytes) : List Bytes :=
  if key = [] ∧ m = [] then [[]] else Bytes.segments v.blockLen m

theorem flatten_messagePieces (key m : Bytes) : (messagePieces v key m).flatten = m := by
  unfold messagePieces
  split_ifs with h
  · rw [h.2]
    rfl
  · exact Bytes.flatten_segments (blockLen_pos v) m

theorem length_le_of_mem_messagePieces {key m piece : Bytes}
    (h : piece ∈ messagePieces v key m) : piece.length ≤ v.blockLen := by
  unfold messagePieces at h
  split_ifs at h
  · rw [List.mem_singleton.1 h]
    exact Nat.zero_le _
  · exact Bytes.length_le_of_mem_segments h

theorem counted_cons (base : Nat) (piece : Bytes) (pieces : List Bytes) :
    counted v base (piece :: pieces) =
      (Bytes.padTo v.blockLen piece, base + piece.length) ::
        counted v (base + piece.length) pieces := by
  simp [counted, List.mapIdx_cons, Nat.add_assoc]

theorem map_messageInputs (base : Nat) {m : Bytes} (hm : m ≠ []) :
    (messageInputs v base m).map (fun x => (x.block, x.counter)) =
      counted v base (Bytes.segments v.blockLen m) := by
  fun_induction messageInputs v base m with
  | case1 base m h ih =>
    have htake : (m.take v.blockLen).length = v.blockLen := List.length_take_of_le h.le
    have hdrop : m.drop v.blockLen ≠ [] :=
      List.ne_nil_of_length_pos (by rw [List.length_drop]; omega)
    rw [List.map_cons, ih hdrop, Bytes.segments_cons (blockLen_pos v) hm, counted_cons, htake,
      Bytes.padTo_of_length htake.ge]
  | case2 base m h =>
    rw [Bytes.segments_single (blockLen_pos v) hm (Nat.not_lt.1 h), counted_cons]
    rfl

/-- Blocks and counters are those of a message: the key block counts itself, and each
block of the message the message up to its end and the key block. -/
def CountsBytes (v : Variant) (key m : Bytes) (xs : List Input) : Prop :=
  xs.map (fun x => (x.block, x.counter)) =
    (if key = [] then [] else [(Bytes.padTo v.blockLen key, v.blockLen)]) ++
      counted v (if key = [] then 0 else v.blockLen) (messagePieces v key m)

theorem countsBytes_start (p : Params) (m : Bytes) :
    CountsBytes v p.key m ((Core.start v p).inputs 0 m) := by
  unfold CountsBytes
  by_cases hkey : p.key = []
  · rw [Core.inputs_unkeyed hkey, if_pos hkey, if_pos hkey, List.nil_append]
    by_cases hm : m = []
    · have hpieces : messagePieces v p.key m = [[]] := if_pos ⟨hkey, hm⟩
      have hshort : ¬ v.blockLen < ([] : Bytes).length := Nat.not_lt_zero _
      rw [hpieces, hm, messageInputs, if_neg hshort, counted_cons]
      rfl
    · have hpieces : messagePieces v p.key m = Bytes.segments v.blockLen m :=
        if_neg fun h => hm h.2
      rw [hpieces, map_messageInputs 0 hm]
  · have hpieces : messagePieces v p.key m = Bytes.segments v.blockLen m :=
      if_neg fun h => hkey h.1
    rw [Core.inputs_keyed hkey, if_neg hkey, if_neg hkey, hpieces]
    by_cases hm : m = []
    · rw [if_pos hm, hm, Bytes.segments_nil]
      rfl
    · rw [if_neg hm, List.map_cons, map_messageInputs _ hm]
      rfl

/-! ## The words of a counter -/

/-- A counter that fits is cut into its words, and the high one is in use from one more than
the low one holds. -/
theorem counter_words {t : Nat} (h : t < 2 ^ v.counterBits) :
    t = (BitVec.ofNat v.wordBits (t % 2 ^ v.wordBits)).toNat +
        2 ^ v.wordBits * (BitVec.ofNat v.wordBits (t / 2 ^ v.wordBits)).toNat ∧
      (BitVec.ofNat v.wordBits (t / 2 ^ v.wordBits) ≠ 0 ↔ 2 ^ v.wordBits ≤ t) := by
  have hhigh : (BitVec.ofNat v.wordBits (t / 2 ^ v.wordBits)).toNat = t / 2 ^ v.wordBits := by
    rw [Variant.counterBits, Nat.two_mul, Nat.pow_add] at h
    rw [BitVec.toNat_ofNat]
    exact Nat.mod_eq_of_lt (Nat.div_lt_of_lt_mul h)
  constructor
  · rw [hhigh, BitVec.toNat_ofNat, Nat.mod_mod, Nat.mod_add_div]
  · rw [Ne, ← BitVec.toNat_inj, hhigh]
    change ¬ _ = 0 ↔ _
    rw [Nat.div_eq_zero_iff_lt (Nat.two_pow_pos _), Nat.not_lt]

/-- The places of the working vector that the words of a counter go into. -/
theorem entries_workingVector_counter (h : Vector v.Word 8) (t : Nat) (last : Bool) :
    entries (workingVector h t last) 12 =
        entries v.iv 4 ^^^ BitVec.ofNat v.wordBits (t % 2 ^ v.wordBits) ∧
      entries (workingVector h t last) 13 =
        entries v.iv 5 ^^^ BitVec.ofNat v.wordBits (t / 2 ^ v.wordBits) := by
  have h4 : Fin.append (entries h) (Standard.initial v) 12 = Standard.initial v 4 :=
    Fin.append_right _ _ 4
  have h5 : Fin.append (entries h) (Standard.initial v) 13 = Standard.initial v 5 :=
    Fin.append_right _ _ 5
  rw [entries_workingVector, entries_iv, Standard.startVector]
  cases last <;> simp [h4, h5]

/-- The last block counts everything. -/
theorem CountsBytes.exists_total {key m : Bytes} {xs : List Input} (hkey : key ≠ []) (hm : m ≠ [])
    (h : CountsBytes v key m xs) : ∃ x ∈ xs, x.counter = v.blockLen + m.length := by
  obtain ⟨piece, hlast⟩ : ∃ piece, (piece, v.blockLen + m.length) ∈
      counted v v.blockLen (messagePieces v key m) := by
    have hpieces : 0 < (messagePieces v key m).length := by
      refine List.length_pos_of_ne_nil fun h0 => hm ?_
      rw [← flatten_messagePieces (v := v) key m, h0, List.flatten_nil]
    refine ⟨_, List.mem_mapIdx.2 ⟨(messagePieces v key m).length - 1, by omega, Prod.ext rfl ?_⟩⟩
    dsimp only
    rw [Nat.sub_add_cancel hpieces, List.take_length, flatten_messagePieces]
  rw [CountsBytes, if_neg hkey, if_neg hkey] at h
  obtain ⟨x, hx, heq⟩ := List.mem_map.1 (h ▸ List.mem_append_right _ hlast)
  exact ⟨x, hx, congrArg Prod.snd heq⟩

/-! ## Runs -/

section
variable {lanes : LaneWidth} {size : Nat} {actions : List (Action Params)}
  {t : Traced ((backend v).withBuffer lanes size)}

/-- What the updates of a stream fed, and what finishing it feeds, is what its message
comes down to, and no sum on the way exceeds its width. -/
theorem fed_of_mem_run (hB : ((backend v).withBuffer lanes size).Aligned)
    (ht : t ∈ run ((backend v).withBuffer lanes size) actions) :
    ∃ closing, t.stream.finishCalls t.stream.digestLen = .ok closing ∧
      t.stream.core = (backend v).applyAll (Core.start v t.params) t.calls ∧
      (Core.start v t.params).fed t.calls ++ t.stream.core.fed closing =
        (Core.start v t.params).inputs 0 t.message ∧
      (Core.start v t.params).fedChecked t.calls = some ((Core.start v t.params).fed t.calls) ∧
      t.stream.core.fedChecked closing = some (t.stream.core.fed closing) := by
  obtain ⟨pieces, hcalls, h⟩ := sound_of_mem_run hB ht
  obtain ⟨hp, -, hcore⟩ := start_of_absorbed h
  obtain ⟨closing, whole, last, hclosing, hall, hm, hwhole, hle, hlast⟩ := h.exists_calls hB
  have hfits : ∀ call ∈ t.calls ++ closing,
      (Core.start v t.params).counterOffset + Core.endOf call < 2 ^ v.counterBits ∧
        Core.endOf call < 2 ^ 64 := by
    intro call hmem
    rw [hcalls, hall] at hmem
    have hend := Core.endOf_le hmem
    rw [hm] at hend
    exact Core.fits_of_le _ (hend.trans h.within)
  rw [← hcalls] at hcore hall
  refine ⟨closing, hclosing, hcore, ?_, ?_, ?_⟩
  · rw [hcore, ← Core.fed_append, hall, ← hm]
    exact (Core.start v t.params).fed_eq 0 whole hwhole hle hlast t.stream.digestLen
  · exact Core.fedChecked_eq _ fun call hmem => hfits call (List.mem_append_left _ hmem)
  · refine Core.fedChecked_eq _ fun call hmem => ?_
    rw [hcore, Core.counterOffset_applyAll]
    exact hfits call (List.mem_append_right _ hmem)

end

/-- **Counters are exact.** Along every run, whatever the buffers and the chunks, no sum
that a counter is made of exceeds its width, in updates and in finishing; each counter is
the number of bytes of the message up to the end of its block, and of the key block if there
is one, which counts itself; and it is cut into two words, of which the high one is in use
from one more than the low one holds. The limit of a keyed BLAKE2s is the last one that
fits. -/
theorem counters_exact (v : Variant) (lanes : LaneWidth) {size : Nat} (hs : 0 < size)
    (hd : v.blockLen ∣ size) :
    ∀ actions, ∀ t ∈ run ((backend v).withBuffer lanes size) actions,
      ∃ c closing, Core.ofParams v t.params = .ok c ∧
        t.stream.core = (backend v).applyAll c t.calls ∧
        t.stream.finishCalls t.stream.digestLen = .ok closing ∧
        c.fedChecked t.calls = some (c.fed t.calls) ∧
        t.stream.core.fedChecked closing = some (t.stream.core.fed closing) ∧
        (messagePieces v t.params.key t.message).flatten = t.message ∧
        (∀ piece ∈ messagePieces v t.params.key t.message, piece.length ≤ v.blockLen) ∧
        ((backend v).applyAll t.stream.core closing).chain =
          (c.fed t.calls ++ t.stream.core.fed closing).foldl (fun h x => (compress h x).1)
            c.chain ∧
        CountsBytes v t.params.key t.message (c.fed t.calls ++ t.stream.core.fed closing) ∧
        (∀ x ∈ c.fed t.calls ++ t.stream.core.fed closing, ∃ low high : v.Word,
          x.counter = low.toNat + 2 ^ v.wordBits * high.toNat ∧
          (high ≠ 0 ↔ 2 ^ v.wordBits ≤ x.counter) ∧
          ∀ h : Vector v.Word 8,
            entries (workingVector h x.counter x.last) 12 = entries v.iv 4 ^^^ low ∧
            entries (workingVector h x.counter x.last) 13 = entries v.iv 5 ^^^ high) ∧
        (v = .s → t.params.key ≠ [] →
          (t.message.length = v.maxInput → ∃ x ∈ c.fed t.calls ++ t.stream.core.fed closing,
            x.counter = 2 ^ 64 - 1) ∧
          ∀ (prior : Nat) (last : Bytes), last ≠ [] → prior + last.length = v.maxInput + 1 →
            t.stream.core.finalInputsChecked prior last = none) := by
  intro actions t ht
  have hB := (backend v).aligned_withBuffer lanes (blockLen_pos v) hs hd
  obtain ⟨closing, hclosing, hcore, hfed, hupdates, hfinish⟩ := fed_of_mem_run hB ht
  obtain ⟨hp, hm, -⟩ := transcriptOf_eq hB ht
  refine ⟨_, closing, Core.ofParams_eq hp, hcore, hclosing, hupdates, hfinish,
    flatten_messagePieces _ _, fun piece => length_le_of_mem_messagePieces, ?_, ?_, ?_, ?_⟩
  · rw [List.foldl_append, ← Core.chain_applyAll, ← hcore, ← Core.chain_applyAll]
  · rw [hfed]
    exact countsBytes_start _ _
  · rw [hfed]
    intro x hx
    obtain ⟨hsplit, hhigh⟩ := counter_words (v := v) (mem_inputs_start hp hm hx).2
    exact ⟨_, _, hsplit, hhigh, fun h => entries_workingVector_counter h x.counter x.last⟩
  · rintro rfl hkey
    have hmax : Variant.s.maxInput = 2 ^ 64 - 65 := by decide
    have hblock : Variant.s.blockLen = 64 := by decide
    constructor
    · intro hlimit
      have hne : t.message ≠ [] := List.ne_nil_of_length_pos (by omega)
      obtain ⟨x, hx, hcounter⟩ := (countsBytes_start t.params t.message).exists_total hkey hne
      rw [hfed]
      exact ⟨x, hx, by omega⟩
    · intro prior last hlast hbeyond
      refine Core.finalInputsChecked_eq_none _ hlast (show 2 ^ 64 ≤ _ from ?_)
      rw [hcore, Core.counterOffset_applyAll, (Core.start_keyed hkey).2]
      omega

/-- A keyed message of a block and a part, and one at the limit of BLAKE2b, where the key
block makes the counter carry. -/
theorem counters_exact_of_keyed :
    (∃ t ∈ run ((backend .s).withBuffer .m128 256)
        [.create ⟨32, [1], [], []⟩, .update 0 (Bytes.zeros 100)],
      ∃ c closing, Core.ofParams .s ⟨32, [1], [], []⟩ = .ok c ∧
        t.stream.finishCalls t.stream.digestLen = .ok closing ∧
        (c.fed t.calls ++ t.stream.core.fed closing).map (·.counter) = [64, 128, 164]) ∧
    ∃ t ∈ run ((backend .b).withBuffer .m128 256)
        [.create ⟨32, [1], [], []⟩, .update 0 (Bytes.zeros (2 ^ 64 - 1))],
      ∃ c closing, Core.ofParams .b ⟨32, [1], [], []⟩ = .ok c ∧
        t.stream.finishCalls t.stream.digestLen = .ok closing ∧
        ∃ x ∈ c.fed t.calls ++ t.stream.core.fed closing, ∃ high : Variant.b.Word,
          x.counter = 2 ^ 64 + 127 ∧ high ≠ 0 ∧ ∀ h : Vector Variant.b.Word 8,
            entries (workingVector h x.counter x.last) 13 = entries Variant.b.iv 5 ^^^ high := by
  have hp : ∀ v, Standard.Admissible v ⟨32, [1], [], []⟩ := by
    rintro (_ | _) <;> exact ⟨by decide, by decide, by decide, .inl rfl, .inl rfl⟩
  constructor
  · have hB := (backend .s).aligned_withBuffer .m128 (blockLen_pos .s) (show 0 < 256 by decide)
      (by decide)
    obtain ⟨t, ht, hparams, hmessage⟩ := exists_mem_run hB (Core.ofParams_eq (hp .s))
      (show (Bytes.zeros 100).length ≤ Variant.s.maxInput by decide)
    obtain ⟨c, closing, hc, -, hclosing, -, -, -, -, -, hcounts, -⟩ :=
      counters_exact .s .m128 (show 0 < 256 by decide) (by decide) _ t ht
    rw [hparams] at hc hcounts
    rw [hmessage] at hcounts
    refine ⟨t, ht, c, closing, hc, hclosing, ?_⟩
    have hcounters := congrArg (List.map Prod.snd) hcounts
    rw [List.map_map] at hcounters
    exact hcounters.trans (by decide +kernel)
  · have hB := (backend .b).aligned_withBuffer .m128 (blockLen_pos .b) (show 0 < 256 by decide)
      (by decide)
    obtain ⟨t, ht, hparams, hmessage⟩ := exists_mem_run hB (Core.ofParams_eq (hp .b))
      (show (Bytes.zeros (2 ^ 64 - 1)).length ≤ Variant.b.maxInput from
        (Bytes.length_zeros _).le)
    obtain ⟨c, closing, hc, -, hclosing, -, -, -, -, -, hcounts, hwords, -⟩ :=
      counters_exact .b .m128 (show 0 < 256 by decide) (by decide) _ t ht
    rw [hparams] at hc hcounts
    have hlen : t.message.length = 2 ^ 64 - 1 := by rw [hmessage, Bytes.length_zeros]
    obtain ⟨x, hx, hcounter⟩ := hcounts.exists_total (List.cons_ne_nil _ _)
      (List.ne_nil_of_length_pos (by omega))
    obtain ⟨low, high, -, hhigh, hvector⟩ := hwords x hx
    have hblock : Variant.b.blockLen = 128 := by decide
    have hcarry : x.counter = 2 ^ 64 + 127 := by omega
    exact ⟨t, ht, c, closing, hc, hclosing, x, hx, high, hcarry,
      hhigh.2 (show 2 ^ 64 ≤ x.counter by omega), fun h => (hvector h).2⟩

end StreamDigest.Blake2
