import StreamDigest.Blake2.Hash
import StreamDigest.Proofs.Blake2.Hash
import StreamDigest.Proofs.Bytes.Endian
import StreamDigest.Proofs.Engine.InPlace

/-!
# The ways to a BLAKE2 digest

A digest is had from the function on an output, from a hasher in one step or in
parts, and from the engine. Each of them sets or checks the digest length in its
own place, and all come to one outcome (`outcome`): the failure of the parameter
check, or the standard's hash.

A hasher of `n` bytes that was built has parameters that ask for `n`. `Fed` says
what it took in, which no use of it and of its copies breaks (`fed_of_uses`), so
that finishing has the right length at all times.
-/

namespace StreamDigest.Blake2

variable {v : Variant} {p : Params} {n : Nat}

/-! ## Outputs -/

/-- A type of outputs of `n` bytes, with a value that is new and a way to replace its bytes. -/
structure OutputType (n : Nat) (α : Type) where
  new : α
  bytes : α → Bytes
  write : α → Bytes → α
  length_new : (bytes new).length = n
  bytes_write : ∀ bs : Bytes, bs.length = n → bytes (write new bs) = bs

/-- Byte strings as outputs. -/
def OutputType.string (n : Nat) : OutputType n Bytes where
  new := Bytes.zeros n
  bytes := id
  write _ bs := bs
  length_new := Bytes.length_zeros n
  bytes_write _ _ := rfl

/-- Arrays as outputs. -/
def OutputType.array (n : Nat) : OutputType n (FixedBytes n) where
  new := .zero n
  bytes := FixedBytes.toBytes
  write a bs := (FixedBytes.ofBytes? n bs).getD a
  length_new := FixedBytes.length_toBytes _
  bytes_write bs h := by
    rw [FixedBytes.ofBytes?, dif_pos h]
    rfl

namespace Hasher

/-- The digest of all input so far as an output of a given type. -/
def finalizeAs {α : Type} (T : OutputType n α) (h : Hasher v n) : Except Error α :=
  match h.stream.finish (T.bytes T.new) with
  | .ok () bs => .ok (T.write T.new bs)
  | .error e _ => .error e

/-- The digest of `input` in one step as an output of a given type. -/
def digestAs {α : Type} (v : Variant) (T : OutputType n α) (input : Bytes) (key : Option Bytes) :
    Except Error α := do
  let h ← new v n key
  let h ← h.update input
  h.finalizeAs T

theorem finalizeAs_string (h : Hasher v n) : h.finalizeAs (.string n) = h.finalize := by
  have hblank : (OutputType.string n).bytes (OutputType.string n).new = Bytes.zeros n := rfl
  rw [finalizeAs, hblank, finalize, InPlace.onZeros, EStateM.run]
  cases h.stream.finish (Bytes.zeros n) <;> rfl

theorem digestAs_string (m : Bytes) (key : Option Bytes) :
    digestAs v (.string n) m key = digestOf v n m key := by
  simp only [digestAs, digestOf, finalizeAs_string]

/-- Take in chunks one after the other. -/
def updateAll (h : Hasher v n) (chunks : List Bytes) : Except Error (Hasher v n) :=
  chunks.foldlM update h

theorem updateAll_of_stream {s s' : Stream (backend v)} {chunks : List Bytes}
    (h : s.updateAll chunks = .ok s') : (⟨s⟩ : Hasher v n).updateAll chunks = .ok ⟨s'⟩ := by
  induction chunks generalizing s with
  | nil => cases h; rfl
  | cons chunk chunks ih =>
    rw [Stream.updateAll, List.foldlM_cons] at h
    obtain ⟨s₁, hs₁, h⟩ := except_bind_eq_ok.1 h
    have hupdate : (⟨s⟩ : Hasher v n).update chunk = .ok ⟨s₁⟩ := by
      rw [update, hs₁]
      rfl
    rw [updateAll, List.foldlM_cons, hupdate, except_ok_bind]
    exact ih h

end Hasher

/-! ## Hashers that were fed -/

theorem aligned_backend (v : Variant) : (backend v).Aligned := by
  cases v <;> exact ⟨by decide, by decide, by decide⟩

theorem length_hash (h : Standard.Admissible v p) (m : Bytes) :
    (Standard.hash v p m).length = p.digestLen := by
  have hmax : 8 * (Standard.blockBytes v / 16) = Standard.maxBytes v := by cases v <;> rfl
  rw [Standard.hash, List.length_take, List.length_flatMap]
  simp only [Bytes.length_toLE, List.map_const', List.length_ofFn, List.sum_replicate_nat, hmax]
  exact Nat.min_eq_left h.digestLen_le

/-- The hasher has parameters that ask for `n` bytes and took in `m` since. -/
def Hasher.Fed (p : Params) (h : Hasher v n) (m : Bytes) : Prop :=
  p.digestLen = n ∧ ∃ pieces, h.stream.Absorbed p m pieces

namespace Hasher.Fed

variable {h : Hasher v n} {m : Bytes}

theorem admissible (hf : h.Fed p m) : Standard.Admissible v p := by
  obtain ⟨-, pieces, hs⟩ := hf
  obtain ⟨c, hc, -⟩ := hs.core_eq
  exact Core.admissible_of_ofParams hc

theorem finish_eq (hf : h.Fed p m) {out : Bytes} (hout : out.length = n) :
    h.stream.finish out = .ok () (Standard.hash v p m) := by
  obtain ⟨hn, pieces, hs⟩ := hf
  have hB : ((backend v).withBuffer .m32 (backend v).bufferLen).Aligned := aligned_backend v
  exact (hash_of_absorbed hB hs).2.2 out (hout.trans hn.symm)

theorem finalize_eq (hf : h.Fed p m) : h.finalize = .ok (Standard.hash v p m) := by
  rw [finalize, InPlace.onZeros, EStateM.run, hf.finish_eq (Bytes.length_zeros n)]

theorem length_hash (hf : h.Fed p m) : (Standard.hash v p m).length = n :=
  (Blake2.length_hash hf.admissible m).trans hf.1

/-- In every type of outputs the bytes are the same. -/
theorem exists_finalizeAs (hf : h.Fed p m) {α : Type} (T : OutputType n α) :
    ∃ a, h.finalizeAs T = .ok a ∧ T.bytes a = Standard.hash v p m := by
  rw [finalizeAs, hf.finish_eq T.length_new]
  exact ⟨_, rfl, T.bytes_write _ hf.length_hash⟩

theorem absorbed_eq (hf : h.Fed p m) : h.absorbed = m.length := by
  obtain ⟨-, pieces, hs⟩ := hf
  exact hs.total

theorem exists_update (hf : h.Fed p m) {data : Bytes} (hd : m.length + data.length ≤ v.maxInput) :
    ∃ h', h.update data = .ok h' ∧ h'.Fed p (m ++ data) := by
  obtain ⟨hn, pieces, hs⟩ := hf
  obtain ⟨_, _, s', -, hs', -, -, habsorbed⟩ := hs.update (aligned_backend v) hd
  rw [update, hs']
  exact ⟨⟨s'⟩, rfl, hn, _, habsorbed⟩

theorem exists_updateAll (hf : h.Fed p m) (chunks : List Bytes)
    (hd : m.length + chunks.flatten.length ≤ v.maxInput) :
    ∃ h', h.updateAll chunks = .ok h' ∧ h'.Fed p (m ++ chunks.flatten) := by
  obtain ⟨hn, pieces, hs⟩ := hf
  obtain ⟨s', pieces', hs', habsorbed⟩ := hs.updateAll (aligned_backend v) chunks hd
  exact ⟨⟨s'⟩, updateAll_of_stream hs', hn, pieces', habsorbed⟩

theorem update_refused (hf : h.Fed p m) {data : Bytes}
    (hd : v.maxInput < m.length + data.length) :
    h.update data = .error (.lengthOverflow m.length data.length v.maxInput) := by
  obtain ⟨-, pieces, hs⟩ := hf
  rw [update, Stream.update, hs.updateCalls_refused hd]
  rfl

end Hasher.Fed

/-! ## Building hashers -/

namespace Hasher

theorem fed_of_ofParams {h : Hasher v n} (hnew : ofParams v n p = .ok h) : h.Fed p [] := by
  unfold ofParams at hnew
  split_ifs at hnew with hn
  obtain ⟨s, hs, hnew⟩ := except_bind_eq_ok.1 hnew
  cases hnew
  exact ⟨hn, [], Stream.absorbed_of_create hs⟩

/-- The digest length is compared before the parameters are checked. -/
theorem ofParams_eq_error {e : Error} : ofParams v n p = .error e ↔
    (p.digestLen ≠ n ∧ e = .digestMismatch p.digestLen n) ∨
      (p.digestLen = n ∧ p.check v = .error e) := by
  by_cases hn : p.digestLen = n
  · have hinit : (backend v).init p = Core.ofParams v p := rfl
    rw [ofParams, if_pos hn, Stream.create, hinit, Core.ofParams]
    cases p.check v <;> simp [hn, bind, Except.bind, pure, Except.pure]
  · rw [ofParams, if_neg hn]
    simp [hn, eq_comm]

theorem exists_ofParams (hn : p.digestLen = n) (hp : Standard.Admissible v p) :
    ∃ h : Hasher v n, ofParams v n p = .ok h := by
  cases hnew : ofParams v n p with
  | ok h => exact ⟨h, rfl⟩
  | error e =>
    rcases ofParams_eq_error.1 hnew with ⟨hne, -⟩ | ⟨-, hcheck⟩
    · exact absurd hn hne
    · rw [check_eq_ok.2 hp] at hcheck
      cases hcheck

end Hasher

/-! ## One outcome -/

/-- The parameters for `n` bytes and an optional key. -/
abbrev paramsOf (n : Nat) (key : Option Bytes) : Params :=
  (Params.ofDigestLen n).withKey (key.getD [])

/-- What every way to a digest of `n` bytes comes to. -/
def outcome (v : Variant) (n : Nat) (key : Option Bytes) (m : Bytes) : Except Error Bytes :=
  match (paramsOf n key).check v with
  | .ok () => .ok (Standard.hash v (paramsOf n key) m)
  | .error e => .error e

/-- An outcome over an output. A failure leaves the bytes that are there. -/
def written (r : Except Error Bytes) (out : Bytes) : EStateM.Result Error Bytes Unit :=
  match r with
  | .ok d => .ok () d
  | .error e => .error e out

theorem outcome_of_digestLen (key : Option Bytes) (m : Bytes) (hn : n = 0 ∨ v.maxLen < n) :
    outcome v n key m = .error (.digestLength v.algorithm n v.maxLen) := by
  have hcheck : (paramsOf n key).check v = .error (.digestLength v.algorithm n v.maxLen) :=
    if_pos hn
  simp only [outcome, hcheck]

theorem outcome_of_key {key : Option Bytes} (m : Bytes) (hn : 0 < n ∧ n ≤ v.maxLen)
    (hkey : v.maxLen < (key.getD []).length) :
    outcome v n key m = .error (.keyLength v.algorithm (key.getD []).length v.maxLen) := by
  have hlen : ¬(n = 0 ∨ v.maxLen < n) := by omega
  have hcheck : (paramsOf n key).check v =
      .error (.keyLength v.algorithm (key.getD []).length v.maxLen) :=
    (if_neg hlen).trans (if_pos hkey)
  simp only [outcome, hcheck]

theorem outcome_of_admissible {key : Option Bytes} (m : Bytes) (hn : 0 < n ∧ n ≤ v.maxLen)
    (hkey : (key.getD []).length ≤ v.maxLen) :
    ∃ d, outcome v n key m = .ok d ∧ d.length = n := by
  have hmax := maxLen_eq v
  have hp : Standard.Admissible v (paramsOf n key) :=
    ⟨hn.1, hmax ▸ hn.2, hmax ▸ hkey, .inl rfl, .inl rfl⟩
  refine ⟨_, ?_, length_hash hp m⟩
  simp only [outcome, check_eq_ok.2 hp]

/-- A check that fails is the outcome of each way, and one that succeeds gives a hasher. -/
theorem outcome_cases (v : Variant) (n : Nat) (key : Option Bytes) :
    (∃ e, (paramsOf n key).check v = .error e ∧ Hasher.new v n key = .error e ∧
      ∀ m, outcome v n key m = .error e) ∨
    (Standard.Admissible v (paramsOf n key) ∧
      (∃ h : Hasher v n, Hasher.new v n key = .ok h ∧ h.Fed (paramsOf n key) []) ∧
      ∀ m, outcome v n key m = .ok (Standard.hash v (paramsOf n key) m)) := by
  cases hcheck : (paramsOf n key).check v with
  | error e =>
    refine .inl ⟨e, rfl, Hasher.ofParams_eq_error.2 (.inr ⟨rfl, hcheck⟩), fun m => ?_⟩
    simp only [outcome, hcheck]
  | ok u =>
    have hp := check_eq_ok.1 hcheck
    obtain ⟨h, hnew⟩ := Hasher.exists_ofParams rfl hp
    refine .inr ⟨hp, ⟨h, hnew, Hasher.fed_of_ofParams hnew⟩, fun m => ?_⟩
    simp only [outcome, hcheck]

section
variable {key : Option Bytes}

theorem oneshot_eq_written {m out : Bytes} (hm : m.length ≤ v.maxInput) (hout : out.length = n) :
    Stream.oneshot (backend v) (paramsOf n key) m out = written (outcome v n key m) out := by
  rcases outcome_cases v n key with ⟨e, hcheck, -, houtcome⟩ | ⟨hp, -, houtcome⟩
  · have hinit : (backend v).init (paramsOf n key) = .error e := by
      change Core.ofParams v _ = _
      rw [Core.ofParams, hcheck]
      rfl
    rw [Stream.oneshot_of_init_error hinit, houtcome, written]
  · obtain ⟨d, hd, honeshot⟩ :=
      Stream.oneshot_eq (aligned_backend v) (blockwise v) (Core.ofParams_eq hp) hm hout
    rw [reference_eq hp] at hd
    cases hd
    rw [honeshot, houtcome, written]

theorem new_updateAll_eq (chunks : List Bytes) (hm : chunks.flatten.length ≤ v.maxInput) :
    (Hasher.new v n key >>= (·.updateAll chunks) >>= (·.finalize)) =
      outcome v n key chunks.flatten := by
  rcases outcome_cases v n key with ⟨e, -, hnew, houtcome⟩ | ⟨-, ⟨h, hnew, hf⟩, houtcome⟩
  · rw [hnew, houtcome]
    rfl
  · obtain ⟨h', hupdates, hf'⟩ := hf.exists_updateAll chunks
      (by rwa [List.length_nil, Nat.zero_add])
    rw [hnew, houtcome, except_ok_bind, hupdates, except_ok_bind]
    exact hf'.finalize_eq

theorem digestAs_eq {m : Bytes} (hm : m.length ≤ v.maxInput) {α : Type} (T : OutputType n α) :
    T.bytes <$> Hasher.digestAs v T m key = outcome v n key m := by
  rcases outcome_cases v n key with ⟨e, -, hnew, houtcome⟩ | ⟨-, ⟨h, hnew, hf⟩, houtcome⟩
  · rw [houtcome, Hasher.digestAs, hnew]
    rfl
  · obtain ⟨h', hupdate, hf'⟩ :=
      hf.exists_update (show ([] : Bytes).length + m.length ≤ v.maxInput by
        rwa [List.length_nil, Nat.zero_add])
    obtain ⟨a, ha, hbytes⟩ := hf'.exists_finalizeAs T
    rw [houtcome, Hasher.digestAs, hnew, except_ok_bind, hupdate, except_ok_bind, ha]
    exact congrArg Except.ok hbytes

theorem digestOf_eq {m : Bytes} (hm : m.length ≤ v.maxInput) :
    Hasher.digestOf v n m key = outcome v n key m := by
  rw [← Hasher.digestAs_string]
  exact (id_map _).symm.trans (digestAs_eq hm (.string n))

end

/-! ## Uses of hashers -/

/-- What is done with hashers, which are numbered in the order in which they were made. -/
inductive Use where
  | update (on : Nat) (data : Bytes)
  /-- Copy a hasher; the copy is a new hasher. -/
  | clone (on : Nat)
  | finalize (on : Nat)

namespace Use

section
variable {α : Type} (feed : α → Bytes → α)

/-- One use, of hashers or of what stands for them. -/
def step (xs : List α) : Use → List α
  | .update on data => xs.modify on (feed · data)
  | .clone on => xs ++ xs[on]?.toList
  | .finalize _ => xs

def steps (xs : List α) (uses : List Use) : List α := uses.foldl (step feed) xs

/-- The one that a use finalizes. -/
def asked (xs : List α) : Use → List α
  | .finalize on => xs[on]?.toList
  | _ => []

/-- Those that are finalized, in order, each as it is then. -/
def finalized (xs : List α) : List Use → List α
  | [] => []
  | use :: uses => asked xs use ++ finalized (step feed xs use) uses

end

section
variable {α β : Type} {R : α → β → Prop} {xs : List α} {ys : List β}

theorem forall₂_modify {f : α → α} {g : β → β} (hfg : ∀ x y, R x y → R (f x) (g y))
    (h : List.Forall₂ R xs ys) (i : Nat) : List.Forall₂ R (xs.modify i f) (ys.modify i g) := by
  induction h generalizing i with
  | nil => cases i <;> exact .nil
  | cons hxy h ih =>
    cases i with
    | zero => exact .cons (hfg _ _ hxy) h
    | succ i => exact .cons hxy (ih i)

theorem forall₂_getElem? (h : List.Forall₂ R xs ys) (i : Nat) :
    List.Forall₂ R xs[i]?.toList ys[i]?.toList := by
  induction h generalizing i with
  | nil => exact .nil
  | cons hxy h ih =>
    cases i with
    | zero => exact .cons hxy .nil
    | succ i => exact ih i

variable {feed : α → Bytes → α} {feed' : β → Bytes → β}
  (hfeed : ∀ x y data, R x y → R (feed x data) (feed' y data))
include hfeed

/-- A relation that feeding preserves is preserved by one use. -/
theorem forall₂_step (h : List.Forall₂ R xs ys) (use : Use) :
    List.Forall₂ R (step feed xs use) (step feed' ys use) := by
  cases use with
  | update on data => exact forall₂_modify (fun x y => hfeed x y data) h on
  | clone on => exact List.rel_append h (forall₂_getElem? h on)
  | finalize on => exact h

/-- The induction over uses. -/
theorem forall₂_steps (h : List.Forall₂ R xs ys) (uses : List Use) :
    List.Forall₂ R (steps feed xs uses) (steps feed' ys uses) ∧
      List.Forall₂ R (finalized feed xs uses) (finalized feed' ys uses) := by
  induction uses generalizing xs ys with
  | nil => exact ⟨h, .nil⟩
  | cons use uses ih =>
    obtain ⟨hsteps, hfinalized⟩ := ih (forall₂_step hfeed h use)
    have hasked : List.Forall₂ R (asked xs use) (asked ys use) := by
      cases use with
      | finalize on => exact forall₂_getElem? h on
      | _ => exact .nil
    exact ⟨hsteps, List.rel_append hasked hfinalized⟩

end

end Use

/-- An update that is refused leaves the hasher as it was. -/
def Hasher.feed (h : Hasher v n) (data : Bytes) : Hasher v n := (h.update data).toOption.getD h

/-- The message behind it: data beyond the limit is not part of it. -/
def feedMessage (v : Variant) (m data : Bytes) : Bytes :=
  if m.length + data.length ≤ v.maxInput then m ++ data else m

theorem Hasher.Fed.feed {h : Hasher v n} {m : Bytes} (hf : h.Fed p m) (data : Bytes) :
    (h.feed data).Fed p (feedMessage v m data) := by
  unfold Hasher.feed feedMessage
  split_ifs with hd
  · obtain ⟨h', hupdate, hf'⟩ := hf.exists_update hd
    rw [hupdate]
    exact hf'
  · rw [hf.update_refused (Nat.lt_of_not_ge hd)]
    exact hf

/-- What a hasher answers that took in `m`. -/
structure Hasher.Answers (p : Params) (h : Hasher v n) (m : Bytes) : Prop where
  finalize : h.finalize = .ok (Standard.hash v p m)
  finalizeAs : ∀ {α : Type} (T : OutputType n α),
    ∃ a, h.finalizeAs T = .ok a ∧ T.bytes a = Standard.hash v p m
  length : (Standard.hash v p m).length = n
  absorbed : h.absorbed = m.length
  update : ∀ data : Bytes,
    (∃ h', h.update data = .ok h') ↔ m.length + data.length ≤ v.maxInput

theorem Hasher.Fed.answers {h : Hasher v n} {m : Bytes} (hf : h.Fed p m) : h.Answers p m where
  finalize := hf.finalize_eq
  finalizeAs := hf.exists_finalizeAs
  length := hf.length_hash
  absorbed := hf.absorbed_eq
  update data := by
    constructor
    · rintro ⟨h', hupdate⟩
      by_contra hd
      rw [hf.update_refused (Nat.lt_of_not_ge hd)] at hupdate
      cases hupdate
    · intro hd
      obtain ⟨h', hupdate, -⟩ := hf.exists_update hd
      exact ⟨h', hupdate⟩

/-- Every use keeps hashers and messages in step, up to each finalization. -/
theorem fed_of_uses {h : Hasher v n} (hnew : Hasher.ofParams v n p = .ok h) (uses : List Use) :
    List.Forall₂ (Hasher.Fed p) (Use.steps Hasher.feed [h] uses)
        (Use.steps (feedMessage v) [[]] uses) ∧
      List.Forall₂ (Hasher.Fed p) (Use.finalized Hasher.feed [h] uses)
        (Use.finalized (feedMessage v) [[]] uses) :=
  Use.forall₂_steps (fun _ _ data hf => hf.feed data)
    (.cons (Hasher.fed_of_ofParams hnew) .nil) uses

/-- **All ways to a digest agree**, in results and in failures. The function on an output,
the engine, and hashers in one step, in parts and with any type of outputs come to one
outcome for a digest length, an optional key and a message, and an output keeps its bytes
if that is a failure. A hasher with full parameters is refused for its digest length first,
and then for what the check refuses. After any uses of a hasher and of its copies, each of
them gives the digest of what it took in, and so did every one that was finalized on the way. -/
theorem entry_points_agree (v : Variant) :
    (∀ (n : Nat) (key : Option Bytes) (chunks : List Bytes),
      chunks.flatten.length ≤ v.maxInput →
        (∀ out : Bytes, out.length = n →
          hash v chunks.flatten key out = written (outcome v n key chunks.flatten) out ∧
          Stream.oneshot (backend v) ((Params.ofDigestLen n).withKey (key.getD []))
            chunks.flatten out = written (outcome v n key chunks.flatten) out) ∧
        Hasher.digestOf v n chunks.flatten key = outcome v n key chunks.flatten ∧
        (∀ {α : Type} (T : OutputType n α),
          T.bytes <$> Hasher.digestAs v T chunks.flatten key = outcome v n key chunks.flatten) ∧
        (Hasher.new v n key >>= (·.updateAll chunks) >>= (·.finalize)) =
          outcome v n key chunks.flatten) ∧
    -- the outcome is a failure of the parameter check or a digest of `n` bytes
    (∀ (n : Nat) (key : Option Bytes) (m : Bytes),
      (n = 0 ∨ v.maxLen < n →
        outcome v n key m = .error (.digestLength v.algorithm n v.maxLen)) ∧
      (0 < n ∧ n ≤ v.maxLen → v.maxLen < (key.getD []).length → outcome v n key m =
        .error (.keyLength v.algorithm (key.getD []).length v.maxLen)) ∧
      (0 < n ∧ n ≤ v.maxLen → (key.getD []).length ≤ v.maxLen →
        ∃ d, outcome v n key m = .ok d ∧ d.length = n) ∧
      outcome v n none m = outcome v n (some []) m) ∧
    -- hashers with full parameters
    (∀ (n : Nat) (p : Params),
      (∀ e, Hasher.ofParams v n p = .error e ↔
        (p.digestLen ≠ n ∧ e = .digestMismatch p.digestLen n) ∨
          (p.digestLen = n ∧ p.check v = .error e)) ∧
      ((∃ h, Hasher.ofParams v n p = .ok h) ↔ p.digestLen = n ∧ Standard.Admissible v p)) ∧
    -- any uses of a hasher and of its copies
    ∀ (n : Nat) (p : Params) (h : Hasher v n), Hasher.ofParams v n p = .ok h →
      ∀ uses : List Use,
        List.Forall₂ (Hasher.Answers p) (Use.steps Hasher.feed [h] uses)
          (Use.steps (feedMessage v) [[]] uses) ∧
        (Use.finalized Hasher.feed [h] uses).map Hasher.finalize =
          (Use.finalized (feedMessage v) [[]] uses).map fun m => .ok (Standard.hash v p m) := by
  refine ⟨fun n key chunks hm => ⟨?_, digestOf_eq hm, digestAs_eq hm,
    new_updateAll_eq chunks hm⟩, fun n key m => ⟨outcome_of_digestLen key m, outcome_of_key m,
    outcome_of_admissible m, rfl⟩, fun n p => ⟨fun e => Hasher.ofParams_eq_error, ?_⟩,
    fun n p h hnew uses => ?_⟩
  · rintro out rfl
    exact ⟨oneshot_eq_written hm rfl, oneshot_eq_written hm rfl⟩
  · constructor
    · rintro ⟨h, hnew⟩
      have hf := Hasher.fed_of_ofParams hnew
      exact ⟨hf.1, hf.admissible⟩
    · rintro ⟨hn, hp⟩
      exact Hasher.exists_ofParams hn hp
  · obtain ⟨hsteps, hfinalized⟩ := fed_of_uses hnew uses
    refine ⟨hsteps.imp fun _ _ hf => hf.answers, ?_⟩
    rw [← List.forall₂_eq_eq_eq, List.forall₂_map_left_iff, List.forall₂_map_right_iff]
    exact hfinalized.imp fun _ _ hf => hf.finalize_eq

/-- A digest too long for BLAKE2s, whose output keeps its bytes, and a hasher that goes on
after a copy was made and finalized. -/
theorem entry_points_agree_of_uses :
    hash .s [1, 2] none (List.replicate 33 7) =
      .error (.digestLength .blake2s 33 32) (List.replicate 33 7) ∧
    (OutputType.array 33).bytes <$> Hasher.digestAs .s (.array 33) [1, 2] (some []) =
      .error (.digestLength .blake2s 33 32) ∧
    ∃ h : Hasher .s 20, Hasher.ofParams .s 20 ⟨20, [1, 2, 3], [], []⟩ = .ok h ∧
      (Use.finalized Hasher.feed [h] [.update 0 [1], .clone 0, .finalize 1, .update 0 [2],
        .update 1 [3], .finalize 0, .finalize 1]).map Hasher.finalize =
        [.ok (Standard.hash .s ⟨20, [1, 2, 3], [], []⟩ [1]),
          .ok (Standard.hash .s ⟨20, [1, 2, 3], [], []⟩ [1, 2]),
          .ok (Standard.hash .s ⟨20, [1, 2, 3], [], []⟩ [1, 3])] := by
  obtain ⟨hways, houtcome, hbuilt, huses⟩ := entry_points_agree .s
  have hlong : ∀ key, outcome .s 33 key [1, 2] = .error (.digestLength .blake2s 33 32) :=
    fun key => (houtcome 33 key [1, 2]).1 (by decide)
  have hp : Standard.Admissible .s ⟨20, [1, 2, 3], [], []⟩ :=
    ⟨by decide, by decide, by decide, .inl rfl, .inl rfl⟩
  obtain ⟨h, hnew⟩ := (hbuilt 20 ⟨20, [1, 2, 3], [], []⟩).2.2 ⟨rfl, hp⟩
  refine ⟨?_, ?_, h, hnew, (huses 20 _ h hnew _).2⟩
  · obtain ⟨hover, -⟩ := hways 33 none [[1], [2]] (by decide)
    exact (hover (List.replicate 33 7) rfl).1.trans (congrArg (written · _) (hlong none))
  · obtain ⟨-, -, hdigest, -⟩ := hways 33 (some []) [[1], [2]] (by decide)
    exact (hdigest (.array 33)).trans (hlong (some []))

end StreamDigest.Blake2
