import StreamDigest.Proofs.Blake2.Hasher
import StreamDigest.Proofs.Engine.Chunking

/-!
# What shows beside digests

A client of streams and hashers sees more than digests: whether a step failed and
how, counts, lengths and printed forms (`sights`). All of that comes from lengths.
Two streams with digests of one length that took in as many bytes (`Handle.Alike`)
show the same, and a step with bytes of the same lengths leaves them alike
(`alike_carryOut`), whatever the bytes of keys, salts, personalizations and input.
-/

namespace StreamDigest.Blake2

variable {v : Variant} {σ : Type} {B : Backend Params σ}

/-! ## Clients -/

/-- A stream is used as it is or through a hasher of `n` bytes. -/
inductive Access where
  | stream
  | hasher (n : Nat)

/-- A stream as a client has it. -/
structure Handle (B : Backend Params σ) where
  access : Access
  stream : Stream B

namespace Handle

/-- Make a stream or a hasher, which compares the digest length first. -/
def create (B : Backend Params σ) (access : Access) (p : Params) : Except Error (Handle B) :=
  match access with
  | .stream => do return ⟨.stream, ← Stream.create B p⟩
  | .hasher n =>
    if p.digestLen = n then do return ⟨.hasher n, ← Stream.create B p⟩
    else .error (.digestMismatch p.digestLen n)

/-- Carry out an operation on the stream. -/
def onStream (op : EStateM Error (Stream B) Unit) : EStateM Error (Handle B) String := fun h =>
  match op h.stream with
  | .ok () s => .ok "" { h with stream := s }
  | .error e s => .error e { h with stream := s }

/-- Start over with new parameters, which hashers do not offer. -/
def reset (p : Params) : EStateM Error (Handle B) String := fun h =>
  match h.access with
  | .stream => onStream (Stream.resetInPlace p) h
  | .hasher _ => .ok "" h

def update (data : Bytes) : EStateM Error (Handle B) String :=
  onStream (Stream.updateInPlace data)

/-- The bytes that a digest is written over: those given, or a hasher's own. -/
def output (out : Bytes) (h : Handle B) : Bytes :=
  match h.access with
  | .stream => out
  | .hasher n => Bytes.zeros n

/-- Ask for the digest, which is not shown. -/
def finish (out : Bytes) : EStateM Error (Handle B) String := fun h =>
  match h.stream.finish (h.output out) with
  | .ok () _ => .ok "" h
  | .error e _ => .error e h

def inspect (h : Handle B) : Inspect :=
  match h.access with
  | .stream => h.stream.inspect
  | .hasher n => .record "Blake2Hasher" [("output_length", .nat n), ("state", h.stream.inspect)]

/-- The printed form, on one line or on several. -/
def print (spread : Bool) : EStateM Error (Handle B) String := fun h =>
  .ok (if spread then h.inspect.indented else h.inspect.inline) h

end Handle

/-! For scalar streams, handles of hashers are hashers. -/

namespace Hasher

variable {n : Nat}

def handle (h : Hasher v n) : Handle (backend v) := ⟨.hasher n, h.stream⟩

theorem create_handle (p : Params) :
    Handle.create (backend v) (.hasher n) p = handle <$> ofParams v n p := by
  rw [Handle.create, ofParams]
  split_ifs
  · cases Stream.create (backend v) p <;> rfl
  · rfl

theorem update_handle {h h' : Hasher v n} {data : Bytes} (hupdate : h.update data = .ok h') :
    Handle.update data h.handle = .ok "" h'.handle := by
  obtain ⟨s, hs, hpure⟩ := except_bind_eq_ok.1 hupdate
  cases hpure
  rw [Handle.update, Handle.onStream, handle, Stream.updateInPlace_of_update hs]
  rfl

theorem finish_handle (h : Hasher v n) (out : Bytes) :
    Handle.finish out h.handle =
      match h.finalize with
      | .ok _ => .ok "" h.handle
      | .error e => .error e h.handle := by
  rw [Handle.finish, Handle.output, handle, finalize, InPlace.onZeros, EStateM.run]
  cases h.stream.finish (Bytes.zeros n) <;> rfl

theorem inspect_handle (h : Hasher v n) : h.handle.inspect = h.inspect := rfl

end Hasher

/-- What a client does with its streams and hashers, which are numbered in the order in which
they were made. A step on a number that is not taken has no effect. -/
inductive Step where
  | create (access : Access) (p : Params)
  | reset (on : Nat) (p : Params)
  | update (on : Nat) (data : Bytes)
  /-- Ask for the digest, a stream over the bytes given. -/
  | finish (on : Nat) (out : Bytes)
  | clone (on : Nat)
  | print (on : Nat) (spread : Bool)

/-- What a step gives back: its outcome, and the text of a printed form or of a failure. -/
structure Report where
  outcome : Except Error Unit
  text : String

/-- What a stream or a hasher tells of itself. -/
structure Sizes where
  total : Nat
  digestLen : Nat
  /-- The number of buffered bytes. -/
  buffered : Except Error Nat

def Handle.sizes (h : Handle B) : Sizes :=
  ⟨h.stream.total, h.stream.digestLen, h.stream.buffered.map List.length⟩

/-- Carry out an operation on the handle numbered `on`, which goes on with what is left there. -/
def operate (hs : List (Handle B)) (on : Nat) (op : EStateM Error (Handle B) String) :
    Report × List (Handle B) :=
  match hs[on]? with
  | none => (⟨.ok (), ""⟩, hs)
  | some h =>
    match op h with
    | .ok text h' => (⟨.ok (), text⟩, hs.set on h')
    | .error e h' => (⟨.error e, e.message⟩, hs.set on h')

/-- The report of a step, and the handles after it. -/
def carryOut (hs : List (Handle B)) : Step → Report × List (Handle B)
  | .create access p =>
    match Handle.create B access p with
    | .ok h => (⟨.ok (), ""⟩, hs ++ [h])
    | .error e => (⟨.error e, e.message⟩, hs)
  | .reset on p => operate hs on (Handle.reset p)
  | .update on data => operate hs on (Handle.update data)
  | .finish on out => operate hs on (Handle.finish out)
  | .clone on => (⟨.ok (), ""⟩, hs ++ hs[on]?.toList)
  | .print on spread => operate hs on (Handle.print spread)

/-- What a client sees of a step: its report, and the sizes of all handles after it. -/
structure Sight where
  report : Report
  sizes : List Sizes

/-- What a client that has handles sees, step by step. -/
def sightsFrom (hs : List (Handle B)) : List Step → List Sight
  | [] => []
  | step :: steps =>
    ⟨(carryOut hs step).1, (carryOut hs step).2.map Handle.sizes⟩ ::
      sightsFrom (carryOut hs step).2 steps

/-- What a client sees of a whole run. -/
def sights (B : Backend Params σ) (steps : List Step) : List Sight :=
  sightsFrom ([] : List (Handle B)) steps

/-! ## Lengths alone -/

/-- The parameters differ in bytes only. -/
structure Params.SameLengths (p p' : Params) : Prop where
  digestLen : p.digestLen = p'.digestLen
  key : p.key.length = p'.key.length
  salt : p.salt.length = p'.salt.length
  personal : p.personal.length = p'.personal.length

/-- The steps differ in bytes only. -/
inductive Step.SameLengths : Step → Step → Prop where
  | create (access : Access) {p p' : Params} (h : p.SameLengths p') :
    SameLengths (.create access p) (.create access p')
  | reset (on : Nat) {p p' : Params} (h : p.SameLengths p') :
    SameLengths (.reset on p) (.reset on p')
  | update (on : Nat) {data data' : Bytes} (h : data.length = data'.length) :
    SameLengths (.update on data) (.update on data')
  | finish (on : Nat) {out out' : Bytes} (h : out.length = out'.length) :
    SameLengths (.finish on out) (.finish on out')
  | clone (on : Nat) : SameLengths (.clone on) (.clone on)
  | print (on : Nat) (spread : Bool) : SameLengths (.print on spread) (.print on spread)

theorem Params.SameLengths.check_eq {p p' : Params} (h : p.SameLengths p') :
    p.check v = p'.check v := by
  have hempty : ∀ {bs bs' : Bytes}, bs.length = bs'.length → (bs ≠ [] ↔ bs' ≠ []) := by
    intro bs bs' hlen
    rw [← List.length_pos_iff, ← List.length_pos_iff, hlen]
  unfold Params.check
  simp only [h.digestLen, h.key, h.salt, h.personal, hempty h.salt, hempty h.personal]

/-- What keeps a backend from showing more than lengths. -/
structure Reticent (B : Backend Params σ) : Prop where
  bufferLen_pos : 0 < B.bufferLen
  blockLen_pos : 0 < B.blockLen
  init : ∀ {p p' : Params}, p.SameLengths p' →
    (∃ e, B.init p = .error e ∧ B.init p' = .error e) ∨
      ∃ c c', B.init p = .ok c ∧ B.init p' = .ok c' ∧ B.digestLen c = B.digestLen c'
  digestLen_apply : ∀ c call, B.digestLen (B.apply c call) = B.digestLen c

theorem reticent_withLanes (v : Variant) (lanes : LaneWidth) :
    Reticent ((backend v).withLanes lanes) where
  bufferLen_pos := Algorithm.bufferLen_pos _ lanes
  blockLen_pos := blockLen_pos v
  init := by
    intro p p' h
    change (∃ e, Core.ofParams v p = .error e ∧ Core.ofParams v p' = .error e) ∨
      ∃ c c', Core.ofParams v p = .ok c ∧ Core.ofParams v p' = .ok c' ∧ c.digestLen = c'.digestLen
    rw [Core.ofParams, Core.ofParams, h.check_eq]
    cases p'.check v with
    | error e => exact .inl ⟨e, rfl, rfl⟩
    | ok _ => exact .inr ⟨_, _, rfl, rfl, h.digestLen⟩
  digestLen_apply c call := by
    cases call with
    | interior prior blocks => exact Core.absorb_digestLen c _
    | final prior last => exact Core.absorb_digestLen c _
    | extract len => rfl

theorem Reticent.digestLen_applyAll (hB : Reticent B) (c : σ) (calls : List Call) :
    B.digestLen (B.applyAll c calls) = B.digestLen c := by
  induction calls generalizing c with
  | nil => rfl
  | cons call calls ih => exact (ih _).trans (hB.digestLen_apply c call)

/-! ## Handles that show the same -/

namespace Handle

/-- Used alike, with digests of one length, after messages of one length. -/
structure Alike (h h' : Handle B) : Prop where
  access : h.access = h'.access
  digestLen : h.stream.digestLen = h'.stream.digestLen
  buffers : ∃ m m' : Bytes, m.length = m'.length ∧
    h.stream.buffer.Holds B.bufferLen m ∧ h'.stream.buffer.Holds B.bufferLen m'

/-- The results of an operation that no client tells apart. -/
inductive AlikeResult :
    EStateM.Result Error (Handle B) String → EStateM.Result Error (Handle B) String → Prop where
  | ok (text : String) {h h' : Handle B} (ha : h.Alike h') :
    AlikeResult (.ok text h) (.ok text h')
  | error (e : Error) {h h' : Handle B} (ha : h.Alike h') :
    AlikeResult (.error e h) (.error e h')

namespace Alike

variable {h h' : Handle B}

theorem total (ha : h.Alike h') : h.stream.total = h'.stream.total := by
  obtain ⟨m, m', hlen, hm, hm'⟩ := ha.buffers
  exact hm.total_eq.trans (hlen.trans hm'.total_eq.symm)

theorem buffered (hB : Reticent B) (ha : h.Alike h') :
    h.stream.buffered.map List.length = h'.stream.buffered.map List.length := by
  obtain ⟨m, m', hlen, hm, hm'⟩ := ha.buffers
  have hheld : (heldBack B.bufferLen m).length = (heldBack B.bufferLen m').length := by
    rw [length_heldBack, length_heldBack, hlen]
  rw [Stream.buffered, Stream.buffered, hm.held hB.bufferLen_pos, hm'.held hB.bufferLen_pos]
  exact congrArg Except.ok hheld

theorem sizes (hB : Reticent B) (ha : h.Alike h') : h.sizes = h'.sizes := by
  rw [Handle.sizes, Handle.sizes, ha.total, ha.digestLen, ha.buffered hB]

theorem inspect (ha : h.Alike h') : h.inspect = h'.inspect := by
  obtain ⟨m, m', -, hm, hm'⟩ := ha.buffers
  have hsize : h.stream.buffer.size = h'.stream.buffer.size := hm.size_eq.trans hm'.size_eq.symm
  have hstream : h.stream.inspect = h'.stream.inspect := by
    rw [Stream.inspect, Stream.inspect, ha.total, hsize]
  rw [Handle.inspect, Handle.inspect, ha.access, hstream]

theorem update (hB : Reticent B) (ha : h.Alike h') {data data' : Bytes}
    (hdata : data.length = data'.length) :
    AlikeResult (Handle.update data h) (Handle.update data' h') := by
  obtain ⟨m, m', hlen, hm, hm'⟩ := ha.buffers
  have htotal := ha.total
  unfold Handle.update onStream
  by_cases hd : h.stream.total + data.length ≤ B.maxInput
  · have hd' : h'.stream.total + data'.length ≤ B.maxInput := by omega
    obtain ⟨_, s, -, hcore, -, hplace, hb⟩ := Stream.updateInPlace_of_le hB.bufferLen_pos hm hd
    obtain ⟨_, s', -, hcore', -, hplace', hb'⟩ :=
      Stream.updateInPlace_of_le hB.bufferLen_pos hm' hd'
    rw [hplace, hplace']
    refine .ok "" ⟨ha.access, ?_, _, _, ?_, hb, hb'⟩
    · rw [Stream.digestLen, Stream.digestLen, hcore, hcore', hB.digestLen_applyAll,
        hB.digestLen_applyAll]
      exact ha.digestLen
    · rw [List.length_append, List.length_append, hlen, hdata]
  · have hd' : B.maxInput < h'.stream.total + data'.length := by omega
    rw [Stream.updateInPlace_refused (Nat.lt_of_not_ge hd), Stream.updateInPlace_refused hd',
      htotal, hdata]
    exact .error _ ha

theorem reset (hB : Reticent B) (ha : h.Alike h') {p p' : Params} (hp : p.SameLengths p') :
    AlikeResult (Handle.reset p h) (Handle.reset p' h') := by
  obtain ⟨m, m', -, hm, hm'⟩ := ha.buffers
  unfold Handle.reset
  rw [ha.access]
  cases h'.access with
  | hasher n => exact .ok "" ha
  | stream =>
    dsimp only [onStream]
    rw [Stream.resetInPlace_eq, Stream.resetInPlace_eq, Stream.reset, Stream.reset]
    rcases hB.init hp with ⟨e, he, he'⟩ | ⟨c, c', hc, hc', hdigest⟩
    · rw [he, he']
      exact .error e ha
    · rw [hc, hc', Buffer.size, Buffer.size, hm.size_eq, hm'.size_eq]
      exact .ok "" ⟨ha.access, hdigest, [], [], rfl, Buffer.holds_empty _, Buffer.holds_empty _⟩

theorem finish (hB : Reticent B) (ha : h.Alike h') {out out' : Bytes}
    (hout : out.length = out'.length) :
    AlikeResult (Handle.finish out h) (Handle.finish out' h') := by
  obtain ⟨m, m', -, hm, hm'⟩ := ha.buffers
  have hlen : (h.output out).length = (h'.output out').length := by
    rw [output, output, ha.access]
    cases h'.access with
    | stream => exact hout
    | hasher n => rfl
  have hdigest := ha.digestLen
  unfold Handle.finish
  by_cases hd : (h.output out).length = h.stream.digestLen
  · obtain ⟨_, hfinish⟩ := Stream.finish_of_length hB.bufferLen_pos hB.blockLen_pos hm hd
    obtain ⟨_, hfinish'⟩ := Stream.finish_of_length hB.bufferLen_pos hB.blockLen_pos hm'
      (show (h'.output out').length = h'.stream.digestLen by omega)
    rw [hfinish, hfinish']
    exact .ok "" ha
  · have hd' : (h'.output out').length ≠ h'.stream.digestLen := by omega
    rw [Stream.finish_refused hd, Stream.finish_refused hd', hlen, hdigest]
    exact .error _ ha

theorem print (ha : h.Alike h') (spread : Bool) :
    AlikeResult (Handle.print spread h) (Handle.print spread h') := by
  unfold Handle.print
  rw [ha.inspect]
  exact .ok _ ha

end Alike

theorem alike_create (hB : Reticent B) (access : Access) {p p' : Params}
    (hp : p.SameLengths p') :
    (∃ e, create B access p = .error e ∧ create B access p' = .error e) ∨
      ∃ h h', create B access p = .ok h ∧ create B access p' = .ok h' ∧ h.Alike h' := by
  have hmade : (∃ e, Stream.create B p = .error e ∧ Stream.create B p' = .error e) ∨
      ∃ s s', Stream.create B p = .ok s ∧ Stream.create B p' = .ok s' ∧
        ∀ access, (⟨access, s⟩ : Handle B).Alike ⟨access, s'⟩ := by
    rw [Stream.create, Stream.create]
    rcases hB.init hp with ⟨e, he, he'⟩ | ⟨c, c', hc, hc', hdigest⟩
    · rw [he, he']
      exact .inl ⟨e, rfl, rfl⟩
    · rw [hc, hc']
      exact .inr ⟨_, _, rfl, rfl, fun access =>
        ⟨rfl, hdigest, [], [], rfl, Buffer.holds_empty _, Buffer.holds_empty _⟩⟩
  rcases hmade with ⟨e, he, he'⟩ | ⟨s, s', hs, hs', ha⟩
  · cases access with
    | stream =>
      rw [create, create, he, he']
      exact .inl ⟨e, rfl, rfl⟩
    | hasher n =>
      rw [create, create, he, he', hp.digestLen]
      split_ifs
      · exact .inl ⟨e, rfl, rfl⟩
      · exact .inl ⟨_, rfl, rfl⟩
  · cases access with
    | stream =>
      rw [create, create, hs, hs']
      exact .inr ⟨_, _, rfl, rfl, ha .stream⟩
    | hasher n =>
      rw [create, create, hs, hs', hp.digestLen]
      split_ifs
      · exact .inr ⟨_, _, rfl, rfl, ha (.hasher n)⟩
      · exact .inl ⟨_, rfl, rfl⟩

end Handle

/-! ## Two runs -/

theorem alike_operate {hs hs' : List (Handle B)} (h : List.Forall₂ Handle.Alike hs hs') (on : Nat)
    {op op' : EStateM Error (Handle B) String}
    (hop : ∀ h h', h.Alike h' → Handle.AlikeResult (op h) (op' h')) :
    (operate hs on op).1 = (operate hs' on op').1 ∧
      List.Forall₂ Handle.Alike (operate hs on op).2 (operate hs' on op').2 := by
  have hset : ∀ {x x' : Handle B}, x.Alike x' →
      List.Forall₂ Handle.Alike (hs.set on x) (hs'.set on x') := by
    intro x x' hx
    rw [List.set_eq_modify, List.set_eq_modify]
    exact Use.forall₂_modify (fun _ _ _ => hx) h on
  have hat := Use.forall₂_getElem? h on
  unfold operate
  cases hx : hs[on]? with
  | none =>
    cases hx' : hs'[on]? with
    | none => exact ⟨rfl, h⟩
    | some x' => rw [hx, hx'] at hat; cases hat
  | some x =>
    cases hx' : hs'[on]? with
    | none => rw [hx, hx'] at hat; cases hat
    | some x' =>
      rw [hx, hx'] at hat
      obtain ⟨hxx, -⟩ := List.forall₂_cons.1 hat
      have hresult := hop x x' hxx
      dsimp only
      generalize op x = r, op' x' = r' at hresult ⊢
      cases hresult with
      | ok text ha => exact ⟨rfl, hset ha⟩
      | error e ha => exact ⟨rfl, hset ha⟩

/-- One step: what it reports is the same, and the handles stay alike. -/
theorem alike_carryOut (hB : Reticent B) {hs hs' : List (Handle B)}
    (h : List.Forall₂ Handle.Alike hs hs') {step step' : Step} (hstep : step.SameLengths step') :
    (carryOut hs step).1 = (carryOut hs' step').1 ∧
      List.Forall₂ Handle.Alike (carryOut hs step).2 (carryOut hs' step').2 := by
  cases hstep with
  | create access hp =>
    rcases Handle.alike_create hB access hp with ⟨e, he, he'⟩ | ⟨x, x', hx, hx', ha⟩
    · rw [carryOut, carryOut, he, he']
      exact ⟨rfl, h⟩
    · rw [carryOut, carryOut, hx, hx']
      exact ⟨rfl, List.rel_append h (.cons ha .nil)⟩
  | reset on hp => exact alike_operate h on fun _ _ ha => ha.reset hB hp
  | update on hdata => exact alike_operate h on fun _ _ ha => ha.update hB hdata
  | finish on hout => exact alike_operate h on fun _ _ ha => ha.finish hB hout
  | clone on => exact ⟨rfl, List.rel_append h (Use.forall₂_getElem? h on)⟩
  | print on spread => exact alike_operate h on fun _ _ ha => ha.print spread

theorem sizes_eq (hB : Reticent B) {hs hs' : List (Handle B)}
    (h : List.Forall₂ Handle.Alike hs hs') : hs.map Handle.sizes = hs'.map Handle.sizes := by
  rw [← List.forall₂_eq_eq_eq, List.forall₂_map_left_iff, List.forall₂_map_right_iff]
  exact h.imp fun _ _ ha => ha.sizes hB

/-- The induction over the steps of two runs. -/
theorem sightsFrom_eq (hB : Reticent B) {steps steps' : List Step}
    (hsteps : List.Forall₂ Step.SameLengths steps steps') {hs hs' : List (Handle B)}
    (h : List.Forall₂ Handle.Alike hs hs') : sightsFrom hs steps = sightsFrom hs' steps' := by
  induction hsteps generalizing hs hs' with
  | nil => rfl
  | cons hstep _ ih =>
    obtain ⟨hreport, hnext⟩ := alike_carryOut hB h hstep
    rw [sightsFrom, sightsFrom, hreport, sizes_eq hB hnext, ih hnext]

/-- **What shows beside digests is lengths.** Two runs of one list of steps on streams and
hashers, with digests, keys, salts, personalizations and chunks of the same lengths, show the
same at every step: how it ended and with which error and text, the printed forms, and of all
handles the counts, the digest lengths and the numbers of buffered bytes. Printed parameters
show of a key its length only. -/
theorem sights_of_lengths (v : Variant) :
    (∀ (lanes : LaneWidth) (steps steps' : List Step),
      List.Forall₂ Step.SameLengths steps steps' →
        sights ((backend v).withLanes lanes) steps = sights ((backend v).withLanes lanes) steps') ∧
    ∀ (p : Params) (key key' : Bytes), key.length = key'.length →
      (p.withKey key).inspect.inline = (p.withKey key').inspect.inline ∧
        (p.withKey key).inspect.indented = (p.withKey key').inspect.indented := by
  refine ⟨fun lanes steps steps' hsteps => sightsFrom_eq (reticent_withLanes v lanes) hsteps .nil,
    fun p key key' hkey => ?_⟩
  have hinspect : (p.withKey key).inspect = (p.withKey key').inspect := by
    simp only [Params.inspect, Params.withKey, hkey]
  rw [hinspect]
  exact ⟨rfl, rfl⟩

/-- Two runs in which a digest, parameters and a hasher are refused, and which show alike:
the texts are those of `Error.message`, without the place that reports them. -/
theorem sights_of_other_bytes :
    sights ((backend .s).withLanes .m128)
        [.create .stream ⟨32, [1, 2], [], []⟩, .update 0 [1, 2, 3], .clone 0,
          .finish 1 (Bytes.zeros 31), .reset 0 ⟨32, [], [1], []⟩,
          .create (.hasher 16) ⟨20, [3], [], []⟩, .print 0 false] =
      sights ((backend .s).withLanes .m128)
        [.create .stream ⟨32, [3, 4], [], []⟩, .update 0 [4, 5, 6], .clone 0,
          .finish 1 (List.replicate 31 9), .reset 0 ⟨32, [], [2], []⟩,
          .create (.hasher 16) ⟨20, [4], [], []⟩, .print 0 false] ∧
    (sights ((backend .s).withLanes .m128)
        [.create .stream ⟨32, [3, 4], [], []⟩, .update 0 [4, 5, 6], .clone 0,
          .finish 1 (List.replicate 31 9), .reset 0 ⟨32, [], [2], []⟩,
          .create (.hasher 16) ⟨20, [4], [], []⟩, .print 0 false]).map (·.report.text) =
      ["", "", "", "invalid output length 31, expected 32",
        "invalid blake2s salt length: 1, expected 8",
        "digest length 20 does not match output length 16",
        "StreamingState \x7b algorithm: Blake2s, lane_width: M128, total_len: 3, " ++
          "buffer_len: 256 \x7d"] := by
  refine ⟨(sights_of_lengths .s).1 .m128 _ _ ?_, by decide +kernel⟩
  exact .cons (.create .stream ⟨rfl, rfl, rfl, rfl⟩) <| .cons (.update 0 rfl) <|
    .cons (.clone 0) <| .cons (.finish 1 rfl) <| .cons (.reset 0 ⟨rfl, rfl, rfl, rfl⟩) <|
    .cons (.create (.hasher 16) ⟨rfl, rfl, rfl, rfl⟩) <| .cons (.print 0 false) .nil

end StreamDigest.Blake2
