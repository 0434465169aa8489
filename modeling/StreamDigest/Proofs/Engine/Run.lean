import StreamDigest.Engine.Stream
import StreamDigest.Proofs.Engine.Buffer

/-!
# Runs of a client

`Stream.Absorbed s params m pieces` is the invariant of a stream: it was given
`params` and the message `m` since, its buffer contains what `m` holds back,
and its chaining state took in the rest as `pieces`. `Absorbed.update` is one
step of it and `Absorbed.finishCalls` what it says about digests.

A run (`run`) is any sequence of actions on streams that a client makes, feeds,
copies, resets and asks for digests. Each stream is kept with its history
(`Traced`), and the invariant holds of every stream at every point of every run
(`sound_of_mem_run`).
-/

namespace StreamDigest

variable {π σ : Type} {B : Backend π σ}

namespace Backend

/-- The buffer takes a whole number of blocks, at least one. -/
structure Aligned (B : Backend π σ) : Prop where
  blockLen_pos : 0 < B.blockLen
  bufferLen_pos : 0 < B.bufferLen
  dvd : B.blockLen ∣ B.bufferLen

theorem applyAll_append (c : σ) (xs ys : List Call) :
    B.applyAll c (xs ++ ys) = B.applyAll (B.applyAll c xs) ys := List.foldl_append

end Backend

namespace Stream

/-- The stream was given `params` and then `m`; of `m` the chaining state took in
`pieces`, and the buffer contains the end. -/
structure Absorbed (s : Stream B) (params : π) (m : Bytes) (pieces : List Bytes) : Prop where
  core_eq : ∃ c, B.init params = .ok c ∧ s.core = B.applyAll c (interiorCalls 0 pieces)
  flatten_eq : pieces.flatten = handedOn B.bufferLen m
  whole : ∀ p ∈ pieces, p ≠ [] ∧ B.bufferLen ∣ p.length
  holds : s.buffer.Holds B.bufferLen m
  within : m.length ≤ B.maxInput

theorem absorbed_of_init {c : σ} {params : π} (h : B.init params = .ok c) :
    (⟨c, .empty B.bufferLen⟩ : Stream B).Absorbed params [] [] where
  core_eq := ⟨c, h, rfl⟩
  flatten_eq := rfl
  whole := by simp
  holds := Buffer.holds_empty B.bufferLen
  within := Nat.zero_le _

theorem create_eq {c : σ} {params : π} (h : B.init params = .ok c) :
    create B params = .ok ⟨c, .empty B.bufferLen⟩ := by
  rw [create, h]
  rfl

theorem absorbed_of_create {s : Stream B} {params : π} (h : create B params = .ok s) :
    s.Absorbed params [] [] := by
  cases hc : B.init params with
  | error e => rw [create, hc] at h; cases h
  | ok c =>
    rw [create_eq hc] at h
    cases h
    exact absorbed_of_init hc

namespace Absorbed

variable {s : Stream B} {params : π} {m : Bytes} {pieces : List Bytes}

theorem total (h : s.Absorbed params m pieces) : s.total = m.length := h.holds.total_eq

theorem buffered (hB : B.Aligned) (h : s.Absorbed params m pieces) :
    s.buffered = .ok (heldBack B.bufferLen m) := h.holds.held hB.bufferLen_pos

theorem of_reset {s' : Stream B} {params' : π} (h : s.Absorbed params m pieces)
    (hr : s.reset params' = .ok s') : s'.Absorbed params' [] [] := by
  cases hc : B.init params' with
  | error e => rw [reset, hc] at hr; cases hr
  | ok c =>
    rw [reset, hc, except_ok_bind, Buffer.size, h.holds.size_eq] at hr
    cases hr
    exact absorbed_of_init hc

/-- Data within the limit is taken in, and the calls go out for the pieces that
became whole. -/
theorem update (hB : B.Aligned) (h : s.Absorbed params m pieces) {data : Bytes}
    (hd : m.length + data.length ≤ B.maxInput) :
    ∃ completed bulk s',
      s.updateCalls data =
        .ok (interiorCalls (handedOn B.bufferLen m).length (completed ++ bulk), s'.buffer) ∧
      s.update data = .ok s' ∧
      s'.core = B.applyAll s.core
        (interiorCalls (handedOn B.bufferLen m).length (completed ++ bulk)) ∧
      Buffer.HandsOn B.bufferLen m data completed bulk ∧
      s'.Absorbed params (m ++ data) (pieces ++ (completed ++ bulk)) := by
  obtain ⟨completed, bulk, b', hpush, hb', hon⟩ := h.holds.push hB.bufferLen_pos data
  have hcalls : s.updateCalls data =
      .ok (interiorCalls (handedOn B.bufferLen m).length (completed ++ bulk), b') := by
    rw [updateCalls, h.total, if_pos hd, hpush]
  refine ⟨completed, bulk, ⟨B.applyAll s.core
    (interiorCalls (handedOn B.bufferLen m).length (completed ++ bulk)), b'⟩, hcalls, ?_, rfl,
    hon, ?_⟩
  · rw [Stream.update, hcalls]
    rfl
  · refine ⟨?_, ?_, ?_, hb', ?_⟩
    · obtain ⟨c, hc, hcore⟩ := h.core_eq
      refine ⟨c, hc, ?_⟩
      rw [interiorCalls_append 0 pieces, Backend.applyAll_append, ← hcore, h.flatten_eq,
        Nat.zero_add]
    · rw [List.flatten_append, h.flatten_eq, hon.flatten_eq]
    · intro p hp
      rcases List.mem_append.1 hp with hp | hp
      · exact h.whole p hp
      · exact hon.whole hB.bufferLen_pos p hp
    · rw [List.length_append]
      exact hd

/-- Data beyond the limit is refused. -/
theorem updateCalls_refused (h : s.Absorbed params m pieces) {data : Bytes}
    (hd : B.maxInput < m.length + data.length) :
    s.updateCalls data = .error (.lengthOverflow m.length data.length B.maxInput) := by
  rw [updateCalls, h.total, if_neg (by omega)]

theorem updateAll (hB : B.Aligned) (h : s.Absorbed params m pieces) (chunks : List Bytes)
    (hd : m.length + chunks.flatten.length ≤ B.maxInput) :
    ∃ s' pieces', s.updateAll chunks = .ok s' ∧
      s'.Absorbed params (m ++ chunks.flatten) pieces' := by
  induction chunks generalizing s m pieces with
  | nil => exact ⟨s, pieces, rfl, by rwa [List.flatten_nil, List.append_nil]⟩
  | cons chunk chunks ih =>
    rw [List.flatten_cons, List.length_append] at hd
    obtain ⟨_, _, s₁, -, hs₁, -, -, h₁⟩ :=
      h.update hB (show m.length + chunk.length ≤ B.maxInput by omega)
    obtain ⟨s₂, pieces₂, hs₂, h₂⟩ := ih h₁ (by rw [List.length_append]; omega)
    refine ⟨s₂, pieces₂, ?_, ?_⟩
    · rw [Stream.updateAll, List.foldlM_cons, hs₁, except_ok_bind]
      exact hs₂
    · rwa [List.flatten_cons, ← List.append_assoc]

/-- Finishing hands the held bytes to a copy of the chaining state: whole blocks,
then the last one, and the digest is read. -/
theorem finishCalls (hB : B.Aligned) (h : s.Absorbed params m pieces) :
    s.finishCalls s.digestLen =
      .ok (interiorCalls (handedOn B.bufferLen m).length
          (asPiece (handedOn B.blockLen (heldBack B.bufferLen m))) ++
        [.final (handedOn B.blockLen m).length (heldBack B.blockLen m), .extract s.digestLen]) := by
  rw [Stream.finishCalls, if_pos rfl, h.holds.close hB.bufferLen_pos hB.blockLen_pos hB.dvd,
    except_ok_bind, List.append_assoc]
  rfl

end Absorbed

/-- A message within the limit can be given in any chunks. -/
theorem exists_absorbed (hB : B.Aligned) {c : σ} {params : π} (hc : B.init params = .ok c)
    (chunks : List Bytes) (hd : chunks.flatten.length ≤ B.maxInput) :
    ∃ s pieces, create B params >>= (·.updateAll chunks) = .ok s ∧
      s.Absorbed params chunks.flatten pieces := by
  obtain ⟨s, pieces, hs, h⟩ := (absorbed_of_init hc).updateAll hB chunks (by simpa using hd)
  exact ⟨s, pieces, by rw [create_eq hc, except_ok_bind, hs], h⟩

end Stream

/-! ## Streams with their history -/

/-- A stream with its parameters, the message it took in since it got them, and
the calls that its updates made on the chaining state since. -/
structure Traced (B : Backend π σ) where
  stream : Stream B
  params : π
  message : Bytes
  calls : List Call

namespace Traced

def create (B : Backend π σ) (params : π) : Except Error (Traced B) := do
  return ⟨← Stream.create B params, params, [], []⟩

def reset (t : Traced B) (params : π) : Except Error (Traced B) := do
  return ⟨← t.stream.reset params, params, [], []⟩

def update (t : Traced B) (data : Bytes) : Except Error (Traced B) := do
  let (calls, _) ← t.stream.updateCalls data
  return ⟨← t.stream.update data, t.params, t.message ++ data, t.calls ++ calls⟩

/-- The outcome of an operation that leaves the stream as it was if it fails. -/
def orKeep (t : Traced B) : Except Error (Traced B) → Traced B
  | .ok t' => t'
  | .error _ => t

/-- The invariant of a stream with its history. -/
def Sound (t : Traced B) : Prop :=
  ∃ pieces, t.calls = interiorCalls 0 pieces ∧ t.stream.Absorbed t.params t.message pieces

theorem sound_of_create {params : π} {t : Traced B} (h : create B params = .ok t) : t.Sound := by
  cases hs : Stream.create B params with
  | error e => rw [create, hs] at h; cases h
  | ok s =>
    rw [create, hs] at h
    cases h
    exact ⟨[], rfl, Stream.absorbed_of_create hs⟩

theorem Sound.reset {t t' : Traced B} {params : π} (h : t.Sound) (hr : t.reset params = .ok t') :
    t'.Sound := by
  obtain ⟨pieces, -, h⟩ := h
  cases hs : t.stream.reset params with
  | error e => rw [Traced.reset, hs] at hr; cases hr
  | ok s =>
    rw [Traced.reset, hs] at hr
    cases hr
    exact ⟨[], rfl, h.of_reset hs⟩

/-- Data within the limit is taken in. -/
theorem Sound.exists_update (hB : B.Aligned) {t : Traced B} (h : t.Sound) {data : Bytes}
    (hd : t.message.length + data.length ≤ B.maxInput) :
    ∃ t', t.update data = .ok t' ∧ t'.params = t.params ∧ t'.message = t.message ++ data := by
  obtain ⟨pieces, -, h⟩ := h
  obtain ⟨_, _, s', hcalls, hs', -⟩ := h.update hB hd
  rw [Traced.update, hcalls, except_ok_bind, hs']
  exact ⟨_, rfl, rfl, rfl⟩

theorem Sound.update (hB : B.Aligned) {t t' : Traced B} {data : Bytes} (h : t.Sound)
    (hu : t.update data = .ok t') : t'.Sound := by
  obtain ⟨pieces, hcalls, h⟩ := h
  by_cases hd : t.message.length + data.length ≤ B.maxInput
  · obtain ⟨completed, bulk, s', hc, hs', -, -, h'⟩ := h.update hB hd
    rw [Traced.update, hc, except_ok_bind, hs'] at hu
    cases hu
    refine ⟨pieces ++ (completed ++ bulk), ?_, h'⟩
    rw [interiorCalls_append 0 pieces, ← hcalls, h.flatten_eq, Nat.zero_add]
  · rw [Traced.update, h.updateCalls_refused (Nat.lt_of_not_ge hd)] at hu
    cases hu

end Traced

/-! ## Runs -/

/-- What a client does with its streams, which are numbered in the order in which
they were made. An action on a number that is not taken has no effect. -/
inductive Action (π : Type) where
  /-- Make a stream. -/
  | create (params : π)
  | reset (on : Nat) (params : π)
  | update (on : Nat) (data : Bytes)
  /-- Ask for the digest, in a given output. -/
  | finish (on : Nat) (out : Bytes)
  /-- Ask for the digest, in an output of its length. -/
  | digest (on : Nat)
  /-- Copy a stream; the copy is a new stream. -/
  | clone (on : Nat)

/-- The streams after an action. One that fails leaves its stream as it was, and
asking for a digest always does. -/
def act (ts : List (Traced B)) : Action π → List (Traced B)
  | .create params => ts ++ (Traced.create B params).toOption.toList
  | .reset on params => ts.modify on fun t => t.orKeep (t.reset params)
  | .update on data => ts.modify on fun t => t.orKeep (t.update data)
  | .finish _ _ => ts
  | .digest _ => ts
  | .clone on => ts ++ ts[on]?.toList

/-- The streams after a run, which starts with none. -/
def run (B : Backend π σ) (actions : List (Action π)) : List (Traced B) :=
  actions.foldl act []

theorem forall_mem_modify {α : Type} {P : α → Prop} {xs : List α} (i : Nat) {f : α → α}
    (hf : ∀ x, P x → P (f x)) (h : ∀ x ∈ xs, P x) : ∀ x ∈ xs.modify i f, P x := by
  intro x hx
  obtain ⟨j, hj⟩ := List.mem_iff_getElem?.1 hx
  rw [List.getElem?_modify] at hj
  obtain ⟨y, hy, rfl⟩ := Option.map_eq_some_iff.1 hj
  have := h y (List.mem_of_getElem? hy)
  split
  · exact hf y this
  · exact this

theorem Traced.orKeep_of {P : Traced B → Prop} {t : Traced B} {r : Except Error (Traced B)}
    (h : P t) (hr : ∀ t', r = .ok t' → P t') : P (t.orKeep r) := by
  cases r with
  | ok t' => exact hr t' rfl
  | error e => exact h

section
variable {P : Traced B → Prop}
  (hcreate : ∀ {params t}, Traced.create B params = .ok t → P t)
  (hreset : ∀ {t params t'}, P t → t.reset params = .ok t' → P t')
  (hupdate : ∀ {t data t'}, P t → t.update data = .ok t' → P t')
include hcreate hreset hupdate

/-- One action preserves what creating, resetting and updating do. -/
theorem forall_mem_act {ts : List (Traced B)} (h : ∀ t ∈ ts, P t) (a : Action π) :
    ∀ t ∈ act ts a, P t := by
  cases a with
  | create params =>
    intro t ht
    rcases List.mem_append.1 ht with ht | ht
    · exact h t ht
    · cases hc : Traced.create B params with
      | error e => rw [hc] at ht; cases ht
      | ok t' =>
        rw [hc] at ht
        cases List.mem_singleton.1 ht
        exact hcreate hc
  | reset on params =>
    exact forall_mem_modify on (fun t ht => Traced.orKeep_of ht fun t' => hreset ht) h
  | update on data =>
    exact forall_mem_modify on (fun t ht => Traced.orKeep_of ht fun t' => hupdate ht) h
  | finish on out => exact h
  | digest on => exact h
  | clone on =>
    intro t ht
    rcases List.mem_append.1 ht with ht | ht
    · exact h t ht
    · exact h t (List.mem_of_getElem? (Option.mem_toList.1 ht))

/-- The induction over runs: what creating, resetting and updating preserve
holds of every stream at every point of every run. -/
theorem forall_mem_run (actions : List (Action π)) : ∀ t ∈ run B actions, P t := by
  suffices ∀ ts : List (Traced B), (∀ t ∈ ts, P t) → ∀ t ∈ actions.foldl act ts, P t from
    this [] (by simp)
  induction actions with
  | nil => exact fun ts h => h
  | cons a actions ih =>
    intro ts h
    exact ih (act ts a) (forall_mem_act hcreate hreset hupdate h a)

end

theorem sound_of_mem_run (hB : B.Aligned) {actions : List (Action π)} {t : Traced B}
    (ht : t ∈ run B actions) : t.Sound :=
  forall_mem_run Traced.sound_of_create Traced.Sound.reset (Traced.Sound.update hB) actions t ht

/-! ## Actions that succeed -/

theorem run_concat (B : Backend π σ) (actions : List (Action π)) (a : Action π) :
    run B (actions ++ [a]) = act (run B actions) a := List.foldl_append

section
variable {actions : List (Action π)} {params : π} {c : σ}

/-- Parameters that the backend accepts make a stream, at any point of any run. -/
theorem run_create (hc : B.init params = .ok c) :
    run B (actions ++ [.create params]) =
      run B actions ++ [⟨⟨c, .empty B.bufferLen⟩, params, [], []⟩] := by
  rw [run_concat, act, Traced.create, Stream.create_eq hc]
  rfl

variable {on : Nat} {t : Traced B} (ht : (run B actions)[on]? = some t)
include ht

/-- Parameters that the backend accepts reset any stream of any run. -/
theorem run_reset (hc : B.init params = .ok c) :
    (run B (actions ++ [.reset on params]))[on]? =
      some ⟨⟨c, .empty t.stream.buffer.size⟩, params, [], []⟩ := by
  rw [run_concat, act, List.getElem?_modify_eq, ht, Option.map_eq_map, Option.map_some,
    Traced.reset, Stream.reset, hc]
  rfl

/-- Data within the limit is taken in by any stream of any run. -/
theorem run_update (hB : B.Aligned) {data : Bytes}
    (hd : t.message.length + data.length ≤ B.maxInput) :
    ∃ t', (run B (actions ++ [.update on data]))[on]? = some t' ∧ t'.params = t.params ∧
      t'.message = t.message ++ data := by
  obtain ⟨t', hupdate, hparams, hmessage⟩ :=
    (sound_of_mem_run hB (List.mem_of_getElem? ht)).exists_update hB hd
  refine ⟨t', ?_, hparams, hmessage⟩
  rw [run_concat, act, List.getElem?_modify_eq, ht, Option.map_eq_map, Option.map_some, hupdate]
  rfl

end

/-- Every message within the limit is taken in by some run. -/
theorem exists_mem_run (hB : B.Aligned) {params : π} {c : σ} (hc : B.init params = .ok c)
    {m : Bytes} (hm : m.length ≤ B.maxInput) :
    ∃ t ∈ run B [.create params, .update 0 m], t.params = params ∧ t.message = m := by
  have hfresh : (run B ([] ++ [.create params]))[0]? =
      some ⟨⟨c, .empty B.bufferLen⟩, params, [], []⟩ := by
    rw [run_create hc]
    rfl
  obtain ⟨t, ht, hparams, hmessage⟩ := run_update hfresh hB ((Nat.zero_add _).trans_le hm)
  exact ⟨t, List.mem_of_getElem? ht, hparams, hmessage⟩

/-- Every message within the limit is taken in behind a reset, whatever the stream went
through before. -/
theorem exists_mem_run_reset (hB : B.Aligned) {actions : List (Action π)} {on : Nat} {t : Traced B}
    (ht : (run B actions)[on]? = some t) {params : π} {c : σ} (hc : B.init params = .ok c)
    {m : Bytes} (hm : m.length ≤ B.maxInput) :
    ∃ t' ∈ run B (actions ++ [.reset on params] ++ [.update on m]),
      t'.params = params ∧ t'.message = m := by
  obtain ⟨t', ht', hparams, hmessage⟩ :=
    run_update (run_reset ht hc) hB ((Nat.zero_add _).trans_le hm)
  exact ⟨t', List.mem_of_getElem? ht', hparams, hmessage⟩

end StreamDigest
