import StreamDigest.Proofs.Blake2.Encoding

/-!
# Parameters that are put together

Parameters are put together by settings, any number of them in any order, and
checked when a core is made. Of the settings the last one of each field counts
(`build_eq`). The check is a list of conditions (`conditions`), and what it
reports is the first that is broken (`check_eq_find`). What passes is told apart
by the core that it gives (`sameCore_of_start`), except that no salt and a salt of
zeros are the same, and so with the personalization: the parameter block has the
length of the key, and at one length the padded keys tell the keys.
-/

namespace StreamDigest.Blake2

variable {v : Variant} {p p' : Params}

/-! ## Settings -/

/-- A field of the parameters is set. -/
inductive Setting where
  | key (bs : Bytes)
  | salt (bs : Bytes)
  | personal (bs : Bytes)

namespace Setting

def key? : Setting → Option Bytes
  | key bs => some bs
  | _ => none

def salt? : Setting → Option Bytes
  | salt bs => some bs
  | _ => none

def personal? : Setting → Option Bytes
  | personal bs => some bs
  | _ => none

end Setting

/-- The last value among settings, of those that `value?` picks. -/
def lastSet (value? : Setting → Option Bytes) (settings : List Setting) : Option Bytes :=
  (settings.filterMap value?).getLast?

namespace Params

def set (p : Params) : Setting → Params
  | .key bs => p.withKey bs
  | .salt bs => p.withSalt bs
  | .personal bs => p.withPersonal bs

/-- Parameters for a digest length, or the default ones, after settings in order. -/
def build (len : Option Nat) (settings : List Setting) : Params :=
  settings.foldl set (match len with
    | some n => ofDigestLen n
    | none => {})

/-- A field that each setting replaces or leaves alone ends up with the last value. -/
theorem foldl_set_field {field : Params → Bytes} {value? : Setting → Option Bytes}
    (hset : ∀ p s, field (set p s) = (value? s).getD (field p)) (p : Params)
    (settings : List Setting) :
    field (settings.foldl set p) = (lastSet value? settings).getD (field p) := by
  induction settings using List.reverseRecOn with
  | nil => rfl
  | append_singleton settings s ih =>
    rw [List.foldl_concat, hset, ih, lastSet, lastSet, List.filterMap_append, List.getLast?_append]
    cases hs : value? s <;> simp [hs]

theorem foldl_set_digestLen (p : Params) (settings : List Setting) :
    (settings.foldl set p).digestLen = p.digestLen := by
  induction settings generalizing p with
  | nil => rfl
  | cons s settings ih =>
    rw [List.foldl_cons, ih]
    cases s <;> rfl

theorem build_eq (len : Option Nat) (settings : List Setting) :
    build len settings =
      { digestLen := len.getD 0
        key := (lastSet Setting.key? settings).getD []
        salt := (lastSet Setting.salt? settings).getD []
        personal := (lastSet Setting.personal? settings).getD [] } := by
  have hdigest : (build len settings).digestLen = len.getD 0 := by
    cases len <;> exact foldl_set_digestLen _ settings
  have hkey : (build len settings).key = (lastSet Setting.key? settings).getD [] := by
    cases len <;> exact foldl_set_field (fun _ s => by cases s <;> rfl) _ settings
  have hsalt : (build len settings).salt = (lastSet Setting.salt? settings).getD [] := by
    cases len <;> exact foldl_set_field (fun _ s => by cases s <;> rfl) _ settings
  have hpersonal : (build len settings).personal =
      (lastSet Setting.personal? settings).getD [] := by
    cases len <;> exact foldl_set_field (fun _ s => by cases s <;> rfl) _ settings
  rw [← hdigest, ← hkey, ← hsalt, ← hpersonal]

end Params

/-! ## Conditions -/

/-- A condition on parameters, and what is reported of those that break it. -/
structure Condition where
  holds : Params → Bool
  report : Params → Error

/-- The conditions of a variant, in order. -/
def conditions (v : Variant) : List Condition :=
  let most := Standard.maxBytes v
  [⟨fun p => decide (1 ≤ p.digestLen ∧ p.digestLen ≤ most),
      fun p => .digestLength v.algorithm p.digestLen most⟩,
    ⟨fun p => decide (p.key.length ≤ most), fun p => .keyLength v.algorithm p.key.length most⟩,
    ⟨fun p => decide (p.salt.length = 0 ∨ p.salt.length = most / 4),
      fun p => .saltLength v.algorithm p.salt.length (most / 4)⟩,
    ⟨fun p => decide (p.personal.length = 0 ∨ p.personal.length = most / 4),
      fun p => .personalLength v.algorithm p.personal.length (most / 4)⟩]

/-- The first condition that parameters break. -/
def firstBroken (v : Variant) (p : Params) : Option Condition :=
  (conditions v).find? fun c => !c.holds p

theorem holds_field_iff {bs : Bytes} {n : Nat} :
    (bs.length = 0 ∨ bs.length = n) ↔ ¬(bs ≠ [] ∧ bs.length ≠ n) := by
  rw [List.length_eq_zero_iff]
  tauto

/-- The check goes through the conditions and reports the first that is broken. -/
theorem check_eq_find (v : Variant) (p : Params) :
    p.check v = match firstBroken v p with
      | some c => .error (c.report p)
      | none => .ok () := by
  rw [Params.check, maxLen_eq, fieldLen_eq]
  simp only [firstBroken, conditions, List.find?_cons]
  split_ifs with hdigest hkey hsalt hpersonal
  · rw [decide_eq_false (show ¬(1 ≤ p.digestLen ∧ p.digestLen ≤ Standard.maxBytes v) by omega)]
    rfl
  all_goals rw [decide_eq_true
    (show 1 ≤ p.digestLen ∧ p.digestLen ≤ Standard.maxBytes v by omega)]
  · rw [decide_eq_false (Nat.not_le.2 hkey)]
    rfl
  all_goals rw [decide_eq_true (Nat.not_lt.1 hkey)]
  · rw [decide_eq_false (mt holds_field_iff.1 (not_not.2 hsalt))]
    rfl
  all_goals rw [decide_eq_true (holds_field_iff.2 hsalt)]
  · rw [decide_eq_false (mt holds_field_iff.1 (not_not.2 hpersonal))]
    rfl
  · rw [decide_eq_true (holds_field_iff.2 hpersonal)]
    rfl

theorem ofParams_eq_error_iff {e : Error} :
    Core.ofParams v p = .error e ↔ ∃ c, firstBroken v p = some c ∧ e = c.report p := by
  rw [Core.ofParams, check_eq_find]
  cases firstBroken v p <;> simp [bind, Except.bind, pure, Except.pure, eq_comm]

theorem exists_ofParams_iff :
    (∃ c, Core.ofParams v p = .ok c) ↔ Standard.Admissible v p := by
  constructor
  · rintro ⟨c, hc⟩
    exact Core.admissible_of_ofParams hc
  · intro h
    exact ⟨_, Core.ofParams_eq h⟩

/-! ## Cores -/

/-- A key of known length is told by its block. -/
theorem keyBlock_inj (hlen : p.key.length = p'.key.length)
    (h : p.keyBlock v = p'.keyBlock v) : p.key = p'.key := by
  unfold Params.keyBlock at h
  split_ifs at h with hkey hkey' hkey'
  · rw [hkey, hkey']
  · exact Bytes.padTo_inj hlen (Option.some.inj h)

/-- The parameters that no core tells apart: absent and zero are the same for a salt
and for a personalization. -/
structure SameCore (v : Variant) (p p' : Params) : Prop where
  digestLen : p.digestLen = p'.digestLen
  key : p.key = p'.key
  salt : Standard.field v p.salt = Standard.field v p'.salt
  personal : Standard.field v p.personal = Standard.field v p'.personal

theorem SameCore.start_eq (h : Standard.Admissible v p) (h' : Standard.Admissible v p')
    (hsame : SameCore v p p') : Core.start v p = Core.start v p' := by
  have hblock := (block_eq_iff h h').2
    ⟨hsame.digestLen, congrArg List.length hsame.key, hsame.salt, hsame.personal⟩
  rw [Core.start, Core.start, Params.keyBlock, Params.keyBlock, hblock, hsame.digestLen,
    hsame.key]

/-- Chaining value and pending key are enough to tell parameters apart. -/
theorem sameCore_of_start (h : Standard.Admissible v p) (h' : Standard.Admissible v p')
    (hchain : (Core.start v p).chain = (Core.start v p').chain)
    (hpending : (Core.start v p).pendingKey = (Core.start v p').pendingKey) :
    SameCore v p p' := by
  obtain ⟨hdigest, hlen, hsalt, hpersonal⟩ :=
    (block_eq_iff h h').1 (chain_start_inj h h' hchain)
  exact ⟨hdigest, keyBlock_inj hlen hpending, hsalt, hpersonal⟩

/-- **Parameters are handled exactly.** Whatever settings put them together, the last
one of each field counts. A core is made of them if they keep all conditions of the
variant, and else the first broken one is reported. Two cores are the same only for
the same digest length, key, salt and personalization, where an absent one of the last
two is zeros, and chaining value, digest length and pending key already tell. -/
theorem params_exact (v : Variant) :
    (∀ (len : Option Nat) (settings : List Setting),
      Params.build len settings =
        { digestLen := len.getD 0
          key := (lastSet Setting.key? settings).getD []
          salt := (lastSet Setting.salt? settings).getD []
          personal := (lastSet Setting.personal? settings).getD [] }) ∧
    (∀ p : Params,
      ((∃ c, Core.ofParams v p = .ok c) ↔
        (1 ≤ p.digestLen ∧ p.digestLen ≤ Standard.maxBytes v) ∧
        p.key.length ≤ Standard.maxBytes v ∧
        (p.salt.length = 0 ∨ p.salt.length = Standard.maxBytes v / 4) ∧
        (p.personal.length = 0 ∨ p.personal.length = Standard.maxBytes v / 4)) ∧
      ∀ e, Core.ofParams v p = .error e ↔ ∃ c, firstBroken v p = some c ∧ e = c.report p) ∧
    ∀ (p p' : Params) (c c' : Core v), Core.ofParams v p = .ok c → Core.ofParams v p' = .ok c' →
      ((c.chain = c'.chain ∧ c.digestLen = c'.digestLen ∧ c.pendingKey = c'.pendingKey) ↔
        SameCore v p p') ∧
      (c = c' ↔ SameCore v p p') := by
  refine ⟨Params.build_eq, fun p => ⟨?_, fun e => ofParams_eq_error_iff⟩,
    fun p p' c c' hc hc' => ?_⟩
  · rw [exists_ofParams_iff, List.length_eq_zero_iff, List.length_eq_zero_iff]
    constructor
    · intro h
      exact ⟨⟨h.digestLen_pos, h.digestLen_le⟩, h.key_le, h.salt, h.personal⟩
    · rintro ⟨⟨hpos, hle⟩, hkey, hsalt, hpersonal⟩
      exact ⟨hpos, hle, hkey, hsalt, hpersonal⟩
  · have h := Core.admissible_of_ofParams hc
    have h' := Core.admissible_of_ofParams hc'
    rw [Core.ofParams_eq h] at hc
    rw [Core.ofParams_eq h'] at hc'
    cases hc
    cases hc'
    refine ⟨⟨?_, fun hsame => ?_⟩, fun heq => ?_, fun hsame => hsame.start_eq h h'⟩
    · rintro ⟨hchain, -, hpending⟩
      exact sameCore_of_start h h' hchain hpending
    · rw [hsame.start_eq h h']
      exact ⟨rfl, rfl, rfl⟩
    · exact sameCore_of_start h h' (congrArg Core.chain heq) (congrArg Core.pendingKey heq)

/-- A key that was replaced leaves nothing behind, a salt of zeros counts as none, and a
zero behind the key does not go unnoticed. Where two lengths are wrong the key is named. -/
theorem params_exact_of_replaced_key :
    (∃ c c' c'' : Core .s,
      Core.ofParams .s (.build (some 32) [.salt (Bytes.zeros 8), .key [9, 9, 9], .key [7]]) =
        .ok c ∧
      Core.ofParams .s (.build (some 32) [.key [7]]) = .ok c' ∧
      Core.ofParams .s (.build (some 32) [.key [7, 0]]) = .ok c'' ∧ c = c' ∧ c' ≠ c'') ∧
    Core.ofParams .b (.build (some 64) [.salt [1], .key (List.replicate 65 0)]) =
      .error (.keyLength .blake2b 65 64) := by
  obtain ⟨-, hmade, hsame⟩ := params_exact .s
  obtain ⟨c, hc⟩ := (hmade (.build (some 32)
    [.salt (Bytes.zeros 8), .key [9, 9, 9], .key [7]])).1.2 (by decide)
  obtain ⟨c', hc'⟩ := (hmade (.build (some 32) [.key [7]])).1.2 (by decide)
  obtain ⟨c'', hc''⟩ := (hmade (.build (some 32) [.key [7, 0]])).1.2 (by decide)
  refine ⟨⟨c, c', c'', hc, hc', hc'', (hsame _ _ _ _ hc hc').2.2 ⟨rfl, rfl, rfl, rfl⟩, ?_⟩, ?_⟩
  · intro heq
    have hkey := ((hsame _ _ _ _ hc' hc'').2.1 heq).key
    revert hkey
    decide
  · exact (((params_exact .b).2.1 _).2 _).2 ⟨_, rfl, rfl⟩

end StreamDigest.Blake2
