import StreamDigest.Engine.Probe
import StreamDigest.Proofs.Engine.InPlace

/-!
# Failures and what a client sees of them

A session carries out the actions of a client in place (`perform`), so that a
stream goes on with whatever an action left of it, also one that failed. After
each action the client sees its answer and may look at all streams (`trace`).

The streams of a session are those of the run (`session_eq_run`), so each of
them has a buffer that contains what its message holds back, and an action that
fails leaves all streams as they were (`perform_of_error`). Taking it out of the
session takes its own observation out of the trace and nothing else
(`trace_eraseIdx`).
-/

namespace StreamDigest

variable {π σ : Type} {B : Backend π σ}

/-! ## Sessions -/

/-- What an action gives back: whether it failed, the bytes in its output, and
the calls that it made on chaining states. -/
structure Answer where
  outcome : Except Error Unit
  output : Bytes
  calls : List Call

/-- What a stream shows without being changed. -/
structure View where
  total : Nat
  buffered : Except Error Bytes
  digestLen : Nat
  digest : Except Error Bytes

def Stream.view (s : Stream B) : View := ⟨s.total, s.buffered, s.digestLen, s.digest⟩

/-- What a client sees of an action: its answer, and all streams after it. -/
structure Observation where
  answer : Answer
  views : List View

/-- The answer of an action that gives nothing back and makes no calls. -/
def Answer.none : Answer := ⟨.ok (), [], []⟩

/-- The calls of an operation, none if it breaks off. -/
def made (calls : Except Error (List Call)) : List Call := calls.toOption.getD []

/-- Carry out an operation on the stream numbered `on`. The stream goes on with
what the operation leaves there. -/
def onStream (ss : List (Stream B)) (on : Nat) (calls : Stream B → Except Error (List Call))
    (op : EStateM Error (Stream B) Unit) : Answer × List (Stream B) :=
  match ss[on]? with
  | none => (.none, ss)
  | some s =>
    match op.run s with
    | .ok () s' => (⟨.ok (), [], made (calls s)⟩, ss.set on s')
    | .error e s' => (⟨.error e, [], made (calls s)⟩, ss.set on s')

/-- Ask the stream numbered `on` for its digest over an output. -/
def askStream (ss : List (Stream B)) (on : Nat) (out : Stream B → Bytes) :
    Answer × List (Stream B) :=
  match ss[on]? with
  | none => (.none, ss)
  | some s =>
    match s.finish.run (out s) with
    | .ok () written => (⟨.ok (), written, made (s.finishCalls (out s).length)⟩, ss)
    | .error e written => (⟨.error e, written, made (s.finishCalls (out s).length)⟩, ss)

/-- The answer of an action, and the streams after it. -/
def perform (ss : List (Stream B)) : Action π → Answer × List (Stream B)
  | .create params =>
    match Stream.create B params with
    | .ok s => (.none, ss ++ [s])
    | .error e => (⟨.error e, [], []⟩, ss)
  | .reset on params => onStream ss on (fun _ => .ok []) (Stream.resetInPlace params)
  | .update on data =>
    onStream ss on (fun s => (s.updateCalls data).map Prod.fst) (Stream.updateInPlace data)
  | .finish on out => askStream ss on fun _ => out
  | .digest on => askStream ss on fun s => Bytes.zeros s.digestLen
  | .clone on => (.none, ss ++ ss[on]?.toList)

/-- The streams after some actions. -/
def performAll (ss : List (Stream B)) (actions : List (Action π)) : List (Stream B) :=
  actions.foldl (fun ss a => (perform ss a).2) ss

/-- The streams after a session, which starts with none. -/
def session (B : Backend π σ) (actions : List (Action π)) : List (Stream B) :=
  performAll [] actions

/-- What a client sees, action by action. -/
def trace (ss : List (Stream B)) : List (Action π) → List Observation
  | [] => []
  | a :: actions =>
    ⟨(perform ss a).1, (perform ss a).2.map Stream.view⟩ :: trace (perform ss a).2 actions

theorem performAll_append (ss : List (Stream B)) (xs ys : List (Action π)) :
    performAll ss (xs ++ ys) = performAll (performAll ss xs) ys := List.foldl_append

theorem trace_append (ss : List (Stream B)) (xs ys : List (Action π)) :
    trace ss (xs ++ ys) = trace ss xs ++ trace (performAll ss xs) ys := by
  induction xs generalizing ss with
  | nil => rfl
  | cons a xs ih => exact congrArg (_ :: ·) (ih _)

theorem length_trace (ss : List (Stream B)) (actions : List (Action π)) :
    (trace ss actions).length = actions.length := by
  induction actions generalizing ss with
  | nil => rfl
  | cons a actions ih => exact congrArg (· + 1) (ih _)

/-! ## The streams of a session -/

/-- Every buffer contains what the message of its stream holds back. -/
def Intact (ss : List (Stream B)) : Prop := ∀ s ∈ ss, ∃ m, s.buffer.Holds B.bufferLen m

theorem holds_of_mem_run (hs : 0 < B.bufferLen) {actions : List (Action π)} {t : Traced B}
    (ht : t ∈ run B actions) : t.stream.buffer.Holds B.bufferLen t.message := by
  refine forall_mem_run (P := fun t => t.stream.buffer.Holds B.bufferLen t.message) ?_ ?_ ?_
    actions t ht
  · intro params t h
    obtain ⟨s, hcreate, h⟩ := except_bind_eq_ok.1 h
    obtain ⟨c, hc, hcreate⟩ := except_bind_eq_ok.1 hcreate
    cases hcreate
    cases h
    exact Buffer.holds_empty B.bufferLen
  · intro t params t' hold h
    obtain ⟨s, hreset, h⟩ := except_bind_eq_ok.1 h
    obtain ⟨c, hc, hreset⟩ := except_bind_eq_ok.1 hreset
    cases hreset
    cases h
    rw [Buffer.size, hold.size_eq]
    exact Buffer.holds_empty B.bufferLen
  · intro t data t' hold h
    obtain ⟨_, hcalls, h⟩ := except_bind_eq_ok.1 h
    obtain ⟨s, hupdate, h⟩ := except_bind_eq_ok.1 h
    cases h
    obtain ⟨hd, -⟩ := Stream.update_eq_ok.1 hupdate
    obtain ⟨_, s', -, -, hupdate', -, hnew⟩ := Stream.updateInPlace_of_le hs hold hd
    rw [hupdate] at hupdate'
    cases hupdate'
    exact hnew

theorem map_modify_of_getElem? {α β : Type} {xs : List α} {i : Nat} {x : α} (h : xs[i]? = some x)
    (f : α → α) (g : α → β) : (xs.modify i f).map g = (xs.map g).set i (g (f x)) := by
  apply List.ext_getElem?
  intro j
  rw [List.getElem?_map, List.getElem?_modify, List.getElem?_set, List.getElem?_map]
  obtain ⟨hi, rfl⟩ := List.getElem?_eq_some_iff.1 h
  by_cases hj : i = j
  · subst hj
    simp [hi]
  · simp [hj]

theorem Traced.update_stream {t : Traced B} {data : Bytes} :
    (t.orKeep (t.update data)).stream = match t.stream.update data with
      | .ok s' => s'
      | .error _ => t.stream := by
  unfold Traced.update Stream.update
  cases t.stream.updateCalls data <;> rfl

theorem Traced.reset_stream {t : Traced B} {params : π} :
    (t.orKeep (t.reset params)).stream = match t.stream.reset params with
      | .ok s' => s'
      | .error _ => t.stream := by
  unfold Traced.reset
  cases t.stream.reset params <;> rfl

theorem onStream_eq {ts : List (Traced B)} {on : Nat} {calls : Stream B → Except Error (List Call)}
    {op : EStateM Error (Stream B) Unit} {f : Traced B → Traced B}
    (h : ∀ t ∈ ts, op.run t.stream = .ok () (f t).stream ∨
      ∃ e, op.run t.stream = .error e (f t).stream) :
    (onStream (ts.map (·.stream)) on calls op).2 = (ts.modify on f).map (·.stream) := by
  unfold onStream
  rw [List.getElem?_map]
  cases ht : ts[on]? with
  | none => rw [List.modify_eq_self (List.getElem?_eq_none_iff.1 ht)]; rfl
  | some t =>
    rw [map_modify_of_getElem? ht]
    rcases h t (List.mem_of_getElem? ht) with hop | ⟨e, hop⟩
    · simp only [Option.map_some, hop]
    · simp only [Option.map_some, hop]

theorem snd_askStream (ss : List (Stream B)) (on : Nat) (out : Stream B → Bytes) :
    (askStream ss on out).2 = ss := by
  unfold askStream
  split
  · rfl
  · split <;> rfl

/-- One action on the streams is one on the streams with their histories. -/
theorem perform_eq_act (hs : 0 < B.bufferLen) {ts : List (Traced B)}
    (h : ∀ t ∈ ts, t.stream.buffer.Holds B.bufferLen t.message) (a : Action π) :
    (perform (ts.map (·.stream)) a).2 = (act ts a).map (·.stream) := by
  cases a with
  | create params =>
    simp only [perform, act, Traced.create]
    cases Stream.create B params with
    | error e => simp [bind, Except.bind, Except.toOption]
    | ok s => simp [except_ok_bind, Except.toOption, pure, Except.pure]
  | reset on params =>
    refine onStream_eq fun t ht => ?_
    rw [Traced.reset_stream, EStateM.run, Stream.resetInPlace_eq]
    cases t.stream.reset params with
    | error e => exact .inr ⟨e, rfl⟩
    | ok s => exact .inl rfl
  | update on data =>
    refine onStream_eq fun t ht => ?_
    rw [Traced.update_stream, EStateM.run]
    by_cases hd : t.stream.total + data.length ≤ B.maxInput
    · obtain ⟨_, s, -, -, hupdate, hplace, -⟩ := Stream.updateInPlace_of_le hs (h t ht) hd
      rw [hupdate]
      exact .inl hplace
    · have hrefused : t.stream.update data =
          .error (.lengthOverflow t.stream.total data.length B.maxInput) := by
        rw [Stream.update, Stream.updateCalls, if_neg hd]
        rfl
      rw [hrefused]
      exact .inr ⟨_, Stream.updateInPlace_refused (Nat.lt_of_not_ge hd)⟩
  | finish on out => exact snd_askStream _ _ _
  | digest on => exact snd_askStream _ _ _
  | clone on =>
    simp only [perform, act, List.getElem?_map, List.map_append]
    cases ts[on]? <;> rfl

/-- **The streams of a session are those of the run.** -/
theorem session_eq_run (hs : 0 < B.bufferLen) (actions : List (Action π)) :
    session B actions = (run B actions).map (·.stream) := by
  induction actions using List.reverseRecOn with
  | nil => rfl
  | append_singleton actions a ih =>
    have hsession : session B (actions ++ [a]) = (perform (session B actions) a).2 :=
      performAll_append [] actions [a]
    rw [run_concat, hsession, ih]
    exact perform_eq_act hs (fun t ht => holds_of_mem_run hs ht) a

theorem intact_session (hs : 0 < B.bufferLen) (actions : List (Action π)) :
    Intact (session B actions) := by
  rw [session_eq_run hs]
  intro s h
  obtain ⟨t, ht, rfl⟩ := List.mem_map.1 h
  exact ⟨t.message, holds_of_mem_run hs ht⟩

/-! ## Failures leave no trace -/

theorem snd_onStream_of_error {ss : List (Stream B)} {on : Nat}
    {calls : Stream B → Except Error (List Call)} {op : EStateM Error (Stream B) Unit} {e : Error}
    (h : ∀ s ∈ ss, ∀ e s', op.run s = .error e s' → s' = s)
    (hfails : (onStream ss on calls op).1.outcome = .error e) :
    (onStream ss on calls op).2 = ss := by
  unfold onStream at hfails ⊢
  cases hs : ss[on]? with
  | none => rfl
  | some s =>
    simp only [hs] at hfails ⊢
    cases hop : op.run s with
    | ok _ s' => simp [hop] at hfails
    | error e s' =>
      obtain ⟨hlt, hget⟩ := List.getElem?_eq_some_iff.1 hs
      rw [h s (List.mem_of_getElem? hs) e s' hop, ← hget]
      exact List.set_getElem_self hlt

/-- **An action that fails leaves all streams as they were.** -/
theorem perform_of_error (hs : 0 < B.bufferLen) {ss : List (Stream B)} (h : Intact ss)
    {a : Action π} {e : Error} (hfails : (perform ss a).1.outcome = .error e) :
    (perform ss a).2 = ss := by
  cases a with
  | create params =>
    simp only [perform] at hfails ⊢
    cases hcreate : Stream.create B params with
    | error e => rfl
    | ok s => simp [hcreate, Answer.none] at hfails
  | reset on params =>
    refine snd_onStream_of_error (fun s _ e s' hop => ?_) hfails
    rw [EStateM.run, Stream.resetInPlace_eq] at hop
    cases hreset : s.reset params with
    | error e => simp_all
    | ok s => simp [hreset] at hop
  | update on data =>
    refine snd_onStream_of_error (fun s hmem e s' hop => ?_) hfails
    obtain ⟨m, hm⟩ := h s hmem
    rw [EStateM.run] at hop
    -- within the limit nothing can break off halfway, beyond it nothing was begun
    by_cases hd : s.total + data.length ≤ B.maxInput
    · obtain ⟨_, _, -, -, -, hplace, -⟩ := Stream.updateInPlace_of_le hs hm hd
      rw [hplace] at hop
      cases hop
    · rw [Stream.updateInPlace_refused (Nat.lt_of_not_ge hd)] at hop
      cases hop
      rfl
  | finish on out => exact snd_askStream _ _ _
  | digest on => exact snd_askStream _ _ _
  | clone on => cases hfails

theorem trace_eraseIdx (hs : 0 < B.bufferLen) {ss : List (Stream B)} (before after : List (Action π))
    {a : Action π} (h : Intact (performAll ss before)) {e : Error}
    (hfails : (perform (performAll ss before) a).1.outcome = .error e) :
    performAll ss (before ++ a :: after) = performAll ss (before ++ after) ∧
      trace ss (before ++ after) = (trace ss (before ++ a :: after)).eraseIdx before.length := by
  have hsame := perform_of_error hs h hfails
  constructor
  · rw [performAll_append, performAll_append]
    exact congrArg (performAll · after) hsame
  · rw [trace_append, trace_append, trace, hsame, List.eraseIdx_append_of_length_le]
    · simp [length_trace]
    · simp [length_trace]

/-- **Failures are refusals**, for any backend with a buffer and blocks of at least one
byte. Each operation on a stream that a client can have fails in one case only, says
so, and leaves everything as it was, so that it can be taken out of the history. -/
theorem failures_of_session (hs : 0 < B.bufferLen) (hb : 0 < B.blockLen) :
    (∀ actions : List (Action π), ∀ s ∈ session B actions,
      -- an update fails beyond the limit
      (∀ data : Bytes,
        (B.maxInput < s.total + data.length → Stream.updateInPlace data s =
          .error (.lengthOverflow s.total data.length B.maxInput) s) ∧
        (s.total + data.length ≤ B.maxInput → ∃ calls s',
          Stream.updateInPlace data s = .ok () s' ∧
          s.updateCalls data = .ok (calls, s'.buffer) ∧ s'.core = B.applyAll s.core calls)) ∧
      -- a reset fails if the backend refuses the parameters
      (∀ params,
        (∀ e, B.init params = .error e → Stream.resetInPlace params s = .error e s) ∧
        (∀ c, B.init params = .ok c → ∃ s', Stream.resetInPlace params s = .ok () s')) ∧
      -- a finish fails on an output of another length
      ∀ out : Bytes,
        (out.length ≠ s.digestLen →
          s.finish out = .error (.outputLength out.length s.digestLen) out) ∧
        (out.length = s.digestLen → ∃ out', s.finish out = .ok () out')) ∧
    -- without a failed action the others go as before
    (∀ (before after : List (Action π)) (a : Action π) (e : Error),
      (perform (session B before) a).1.outcome = .error e →
        session B (before ++ a :: after) = session B (before ++ after) ∧
        trace ([] : List (Stream B)) (before ++ after) =
          (trace ([] : List (Stream B)) (before ++ a :: after)).eraseIdx before.length) ∧
    -- the digest in one step
    ∀ (params : π) (input out : Bytes),
      (∀ e, B.init params = .error e → Stream.oneshot B params input out = .error e out) ∧
      (∀ c, B.init params = .ok c → B.maxInput < input.length →
        Stream.oneshot B params input out =
          .error (.lengthOverflow 0 input.length B.maxInput) out) ∧
      (∀ c, B.init params = .ok c → input.length ≤ B.maxInput →
        ∃ fresh s, Stream.create B params = .ok fresh ∧
          Stream.updateInPlace input fresh = .ok () s ∧
          (out.length ≠ s.digestLen → Stream.oneshot B params input out =
            .error (.outputLength out.length s.digestLen) out) ∧
          (out.length = s.digestLen → ∃ out', s.finish out = .ok () out' ∧
            Stream.oneshot B params input out = .ok () out')) := by
  refine ⟨fun actions s hmem => ?_, fun before after a e hfails => ?_, fun params input out => ?_⟩
  · obtain ⟨m, hm⟩ := intact_session hs actions s hmem
    refine ⟨fun data => ⟨Stream.updateInPlace_refused, fun hd => ?_⟩, fun params => ?_,
      fun out => ⟨Stream.finish_refused, Stream.finish_of_length hs hb hm⟩⟩
    · obtain ⟨calls, s', hcalls, hcore, -, hplace, -⟩ := Stream.updateInPlace_of_le hs hm hd
      exact ⟨calls, s', hplace, hcalls, hcore⟩
    · simp only [Stream.resetInPlace_eq, Stream.reset]
      constructor
      · intro e he
        rw [he]
        rfl
      · intro c hc
        rw [hc]
        exact ⟨_, rfl⟩
  · exact trace_eraseIdx hs before after (intact_session hs before) hfails
  · refine ⟨fun e he => Stream.oneshot_of_init_error he input out,
      fun c hc hlong => Stream.oneshot_of_long hc hlong out, fun c hc hle => ?_⟩
    obtain ⟨s, hplace, hm, honeshot⟩ := Stream.oneshot_of_le hc hs hle
    refine ⟨_, s, Stream.create_eq hc, hplace, fun hout => ?_, fun hout => ?_⟩
    · rw [honeshot, Stream.finish_refused hout]
    · obtain ⟨out', hfinish⟩ := Stream.finish_of_length hs hb hm hout
      exact ⟨out', hfinish, by rw [honeshot, hfinish]⟩

/-- Twenty bytes too many for a stream with a limit of 100 leave no trace. -/
theorem failures_of_probe_session :
    0 < (Probe.backend .ghash .m128 100).bufferLen ∧
    0 < (Probe.backend .ghash .m128 100).blockLen ∧
    trace ([] : List (Stream (Probe.backend .ghash .m128 100)))
        [.create 8, .update 0 (Bytes.zeros 90), .update 0 [7], .digest 0] =
      (trace ([] : List (Stream (Probe.backend .ghash .m128 100)))
        [.create 8, .update 0 (Bytes.zeros 90), .update 0 (Bytes.zeros 20), .update 0 [7],
          .digest 0]).eraseIdx 2 := by
  have hs : 0 < (Probe.backend .ghash .m128 100).bufferLen := by decide
  have hb : 0 < (Probe.backend .ghash .m128 100).blockLen := by decide
  have hfails : (perform (session (Probe.backend .ghash .m128 100)
      [.create 8, .update 0 (Bytes.zeros 90)]) (.update 0 (Bytes.zeros 20))).1.outcome =
        .error (.lengthOverflow 90 20 100) := by rfl
  exact ⟨hs, hb, ((failures_of_session hs hb).2.1 _ [.update 0 [7], .digest 0] _ _ hfails).2⟩

end StreamDigest
