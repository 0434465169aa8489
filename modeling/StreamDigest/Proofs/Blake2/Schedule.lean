import StreamDigest.Blake2.Core
import StreamDigest.Proofs.Engine.Blockwise

/-!
# What BLAKE2 compresses

Everything that a core does to its chaining value goes through a list of
inputs, so statements about messages become statements about lists. Interior
blocks in several calls give the inputs of one call (`interiorInputs_append`),
and a message taken in block by block gives `messageInputs` behind the pending
key block (`consume_eq`).
-/

namespace StreamDigest.Blake2

variable {v : Variant}

theorem blockLen_pos (v : Variant) : 0 < v.blockLen := by cases v <;> decide

namespace Core

/-! ## Absorbing lists of inputs -/

@[simp] theorem absorb_pendingKey (c : Core v) (xs : List Input) :
    (c.absorb xs).pendingKey = none := rfl

theorem foldl_step_fields (c : Core v) (xs : List Input) :
    (xs.foldl step c).digestLen = c.digestLen ∧ (xs.foldl step c).keyed = c.keyed := by
  induction xs generalizing c with
  | nil => exact ⟨rfl, rfl⟩
  | cons x xs ih => exact ih (c.step x)

@[simp] theorem absorb_digestLen (c : Core v) (xs : List Input) :
    (c.absorb xs).digestLen = c.digestLen := (c.foldl_step_fields xs).1

@[simp] theorem absorb_counterOffset (c : Core v) (xs : List Input) :
    (c.absorb xs).counterOffset = c.counterOffset := by
  have : (c.absorb xs).keyed = c.keyed := (c.foldl_step_fields xs).2
  rw [counterOffset, this, counterOffset]

/-- A compression does not look at the pending key block. -/
theorem foldl_step_pendingKey (c : Core v) (xs : List Input) (key : Option Bytes) :
    xs.foldl step { c with pendingKey := key } =
      { xs.foldl step c with pendingKey := key } := by
  induction xs generalizing c with
  | nil => rfl
  | cons x xs ih => exact ih (c.step x)

theorem absorb_absorb (c : Core v) (xs ys : List Input) :
    (c.absorb xs).absorb ys = c.absorb (xs ++ ys) := by
  unfold absorb
  rw [foldl_step_pendingKey, List.foldl_append]

theorem keyInput_of_none {c : Core v} (h : c.pendingKey = none) (last : Bool) :
    c.keyInput last = [] := by
  rw [keyInput, h]
  rfl

/-! ## Interior blocks -/

/-- The inputs of a call and of a call that follows it are those of one call. -/
theorem interiorInputs_append (c : Core v) (prior : Nat) (a b : Bytes)
    (ha : v.blockLen ∣ a.length) (xs : List Input) :
    c.interiorInputs prior (a ++ b) =
      c.interiorInputs prior a ++ (c.absorb xs).interiorInputs (prior + a.length) b := by
  have hpos := blockLen_pos v
  have hlen : (Bytes.blocks v.blockLen a).length * v.blockLen = a.length := by
    rw [Bytes.length_blocks, Nat.div_mul_cancel ha]
  have hshift : ∀ i, prior + (i + (Bytes.blocks v.blockLen a).length + 1) * v.blockLen =
      prior + a.length + (i + 1) * v.blockLen := by
    intro i
    rw [← hlen]
    ring
  unfold interiorInputs
  rw [Bytes.blocks_append hpos a b ha, List.mapIdx_append,
    keyInput_of_none (absorb_pendingKey c xs), List.nil_append, List.append_assoc,
    absorb_counterOffset]
  simp only [Nat.add_assoc] at hshift ⊢
  simp only [hshift]

theorem interior_append (c : Core v) (prior : Nat) (a b : Bytes) (ha : v.blockLen ∣ a.length) :
    c.interior prior (a ++ b) = (c.interior prior a).interior (prior + a.length) b := by
  rw [interior, interior, interior, absorb_absorb, ← interiorInputs_append c prior a b ha]

end Core

theorem blockwise (v : Variant) : (backend v).Blockwise where
  interior_append c prior a b ha _ := Core.interior_append c prior a b ha
  digestLen_interior c prior a := Core.absorb_digestLen c _
  extract_eq c c' out h := by
    change (bytesOf c.chain).take _ = (bytesOf c.chain).take _
    rw [Bytes.length_zeros]

/-! ## Whole messages -/

/-- The inputs for a message that ends the input, with `base` bytes counted
before it: each whole block that more follows, and the last block filled up. -/
def messageInputs (v : Variant) (base : Nat) (m : Bytes) : List Input :=
  if v.blockLen < m.length then
    ⟨m.take v.blockLen, base + v.blockLen, false⟩ ::
      messageInputs v (base + v.blockLen) (m.drop v.blockLen)
  else [⟨Bytes.padTo v.blockLen m, base + m.length, true⟩]
termination_by m.length
decreasing_by
  have := blockLen_pos v
  simp only [List.length_drop]
  omega

/-- What a core feeds to the compression function for a message after `prior`
bytes: the pending key block first, which is the last block if nothing follows. -/
def Core.inputs (c : Core v) (prior : Nat) (m : Bytes) : List Input :=
  if c.pendingKey.isSome ∧ m = [] then c.keyInput true
  else c.keyInput false ++ messageInputs v (c.counterOffset + prior) m

theorem Core.finalInputs_eq (c : Core v) (prior : Nat) {m : Bytes} (h : m.length ≤ v.blockLen) :
    c.finalInputs prior m = c.inputs prior m := by
  rw [Core.finalInputs, Core.inputs, messageInputs, if_neg (Nat.not_lt.2 h)]

/-- The inputs of the first block, and those of the core behind it. -/
theorem Core.inputs_of_lt (c : Core v) (prior : Nat) {m : Bytes} (h : v.blockLen < m.length) :
    c.inputs prior m = c.interiorInputs prior (m.take v.blockLen) ++
      (c.interior prior (m.take v.blockLen)).inputs (prior + v.blockLen) (m.drop v.blockLen) := by
  have htake : (m.take v.blockLen).length = v.blockLen := by
    rw [List.length_take]; omega
  have hm : m ≠ [] := by
    rintro rfl
    exact Nat.not_lt_zero _ h
  have hkey : (c.interior prior (m.take v.blockLen)).pendingKey = none := rfl
  have hoffset : (c.interior prior (m.take v.blockLen)).counterOffset = c.counterOffset :=
    c.absorb_counterOffset _
  rw [Core.inputs, Core.inputs, hkey, hoffset, if_neg (fun h0 => hm h0.2),
    if_neg (fun h0 => by cases h0.1), Core.keyInput_of_none hkey, List.nil_append,
    messageInputs, if_pos h, Core.interiorInputs, Bytes.blocks_single (blockLen_pos v) htake,
    List.append_assoc]
  simp [Nat.add_assoc]

/-- A message taken in block by block goes through the compression function as
the inputs of the core. -/
theorem consume_eq (c : Core v) (prior : Nat) (m : Bytes) :
    (backend v).consume c prior m = c.absorb (c.inputs prior m) := by
  fun_induction (backend v).consume c prior m with
  | case1 c prior m h ih =>
    have hlt : v.blockLen < m.length := h.1
    rw [Core.inputs_of_lt c prior hlt, ← Core.absorb_absorb]
    exact ih
  | case2 c prior m h =>
    have hle : m.length ≤ v.blockLen := by
      by_contra hlt
      exact h ⟨Nat.lt_of_not_ge hlt, blockLen_pos v⟩
    rw [← Core.finalInputs_eq c prior hle]
    rfl

/-! ## The calls of a stream -/

/-- Whole blocks in front give their inputs in front. -/
theorem Core.inputs_append (c : Core v) (prior : Nat) (a : Bytes) {m : Bytes}
    (ha : v.blockLen ∣ a.length) (ha0 : a ≠ []) (hm : m ≠ []) :
    c.inputs prior (a ++ m) =
      c.interiorInputs prior a ++ (c.interior prior a).inputs (prior + a.length) m := by
  have hle := Nat.le_of_dvd (List.length_pos_of_ne_nil ha0) ha
  have hmpos := List.length_pos_of_ne_nil hm
  rw [inputs_of_lt c prior (by rw [List.length_append]; omega),
    List.take_append_of_le_length hle, List.drop_append_of_le_length hle]
  by_cases hlast : a.drop v.blockLen = []
  · have hlen : a.length = v.blockLen := by
      rw [List.drop_eq_nil_iff] at hlast
      omega
    rw [hlast, List.nil_append, List.take_of_length_le hlen.le, hlen]
  · have htake : (a.take v.blockLen).length = v.blockLen := List.length_take_of_le hle
    have hd : v.blockLen ∣ (a.drop v.blockLen).length := by
      rw [List.length_drop]; exact Nat.dvd_sub ha (Nat.dvd_refl _)
    have hcore := c.interior_append prior (a.take v.blockLen) (a.drop v.blockLen) (by rw [htake])
    have hinputs := c.interiorInputs_append prior (a.take v.blockLen) (a.drop v.blockLen)
      (by rw [htake]) (c.interiorInputs prior (a.take v.blockLen))
    rw [List.take_append_drop, htake] at hcore hinputs
    have hlen : prior + v.blockLen + (a.drop v.blockLen).length = prior + a.length := by
      rw [List.length_drop]
      omega
    rw [inputs_append _ _ (a.drop v.blockLen) hd hlast hm, ← List.append_assoc, hinputs, hcore, hlen]
    rfl
termination_by a.length
decreasing_by
  have := blockLen_pos v
  simp only [List.length_drop]
  omega

namespace Core

/-- What a call feeds to the compression function. -/
def inputsOf (c : Core v) : Call → List Input
  | .interior prior blocks => c.interiorInputs prior blocks
  | .final prior last => c.finalInputs prior last
  | .extract _ => []

/-- What calls in order feed to the compression function. -/
def fed (c : Core v) : List Call → List Input
  | [] => []
  | call :: calls => c.inputsOf call ++ fed ((backend v).apply c call) calls

theorem fed_append (c : Core v) (xs ys : List Call) :
    c.fed (xs ++ ys) = c.fed xs ++ fed ((backend v).applyAll c xs) ys := by
  induction xs generalizing c with
  | nil => rfl
  | cons x xs ih =>
    rw [List.cons_append, fed, ih, fed, List.append_assoc]
    rfl

theorem chain_absorb (c : Core v) (xs : List Input) :
    (c.absorb xs).chain = xs.foldl (fun h x => (compress h x).1) c.chain := by
  change (xs.foldl step c).chain = _
  induction xs generalizing c with
  | nil => rfl
  | cons x xs ih => exact ih (c.step x)

/-- Calls change the chaining value by what they feed to the compression function
and in no other way. -/
theorem chain_applyAll (c : Core v) (calls : List Call) :
    ((backend v).applyAll c calls).chain =
      (c.fed calls).foldl (fun h x => (compress h x).1) c.chain := by
  induction calls generalizing c with
  | nil => rfl
  | cons call calls ih =>
    have hcall : ((backend v).apply c call).chain =
        (c.inputsOf call).foldl (fun h x => (compress h x).1) c.chain := by
      cases call with
      | interior prior blocks => exact chain_absorb c _
      | final prior last => exact chain_absorb c _
      | extract len => rfl
    rw [fed, List.foldl_append, ← hcall]
    exact ih _

/-- The calls for a message in whole blocks and a last one feed the inputs of the
message. -/
theorem fed_eq (c : Core v) (prior : Nat) (pieces : List Bytes)
    (hp : ∀ p ∈ pieces, p ≠ [] ∧ v.blockLen ∣ p.length) {last : Bytes}
    (hle : last.length ≤ v.blockLen) (hlast : last = [] → pieces = []) (len : Nat) :
    c.fed (interiorCalls prior pieces ++
      [.final (prior + pieces.flatten.length) last, .extract len]) =
        c.inputs prior (pieces.flatten ++ last) := by
  induction pieces generalizing c prior with
  | nil => exact (List.append_nil _).trans (c.finalInputs_eq prior hle)
  | cons p pieces ih =>
    obtain ⟨hp0, hd⟩ := hp p List.mem_cons_self
    have hl : last ≠ [] := fun h => List.cons_ne_nil _ _ (hlast h)
    have hne : pieces.flatten ++ last ≠ [] := by simp [hl]
    rw [List.flatten_cons, List.append_assoc, c.inputs_append prior p hd hp0 hne,
      ← ih _ _ (fun q hq => hp q (List.mem_cons_of_mem _ hq)) (fun h => absurd h hl),
      List.length_append, ← Nat.add_assoc]
    rfl

end Core

end StreamDigest.Blake2
