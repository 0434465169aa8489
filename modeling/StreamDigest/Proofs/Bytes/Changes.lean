import StreamDigest.Proofs.Bytes.Slices

/-!
# Changes in one place

`ChangedIn start stop as bs`: `bs` is `as` with at least one byte changed, and
nothing inserted or removed, where all changed bytes are at indices from
`start` up to `stop`. So the bytes before and behind that range are the same
(`take_eq`, `drop_eq`) and those in it are not (`middle_ne`). Flipping a bit is
such a change.
-/

namespace StreamDigest.Bytes

structure ChangedIn (start stop : Nat) (as bs : Bytes) : Prop where
  length_eq : bs.length = as.length
  ne : bs ≠ as
  within : ∀ i, bs[i]? ≠ as[i]? → start ≤ i ∧ i < stop

namespace ChangedIn

variable {start stop : Nat} {as bs : Bytes}

theorem mono {start' stop' : Nat} (h : ChangedIn start stop as bs) (hstart : start' ≤ start)
    (hstop : stop ≤ stop') : ChangedIn start' stop' as bs where
  length_eq := h.length_eq
  ne := h.ne
  within i hi := by
    have := h.within i hi
    omega

/-- Some byte in the range is changed. -/
theorem exists_changed (h : ChangedIn start stop as bs) :
    ∃ i, start ≤ i ∧ i < stop ∧ i < as.length ∧ bs[i]? ≠ as[i]? := by
  obtain ⟨i, hi⟩ : ∃ i, bs[i]? ≠ as[i]? := by
    by_contra hall
    push Not at hall
    exact h.ne (List.ext_getElem? hall)
  obtain ⟨hstart, hstop⟩ := h.within i hi
  refine ⟨i, hstart, hstop, ?_, hi⟩
  by_contra hlen
  have hlen' := h.length_eq
  rw [List.getElem?_eq_none (by omega), List.getElem?_eq_none (by omega)] at hi
  exact hi rfl

theorem take_eq (h : ChangedIn start stop as bs) : bs.take start = as.take start := by
  apply List.ext_getElem?
  intro i
  rw [List.getElem?_take, List.getElem?_take]
  split
  · by_contra hne
    have := h.within i hne
    omega
  · rfl

theorem drop_eq (h : ChangedIn start stop as bs) : bs.drop stop = as.drop stop := by
  apply List.ext_getElem?
  intro i
  rw [List.getElem?_drop, List.getElem?_drop]
  by_contra hne
  have := h.within (stop + i) hne
  omega

theorem middle_ne {n : Nat} (h : ChangedIn start (start + n) as bs) :
    (bs.drop start).take n ≠ (as.drop start).take n := by
  intro hmiddle
  have hdrop : bs.drop start = as.drop start := by
    rw [← List.take_append_drop n (bs.drop start), ← List.take_append_drop n (as.drop start),
      hmiddle, List.drop_drop, List.drop_drop, h.drop_eq]
  apply h.ne
  rw [← List.take_append_drop start bs, ← List.take_append_drop start as, h.take_eq, hdrop]

/-- A change in the front leaves the end as it is. -/
theorem of_append {zs : Bytes} (h : ChangedIn start stop (as ++ zs) bs) (hs : stop ≤ as.length) :
    ∃ front, bs = front ++ zs ∧ ChangedIn start stop as front := by
  have hlen := h.length_eq
  rw [List.length_append] at hlen
  have hend : bs.drop as.length = zs := by
    rw [(h.mono le_rfl hs).drop_eq, List.drop_left]
  have hbs : bs = bs.take as.length ++ zs := by
    rw [← hend, List.take_append_drop]
  refine ⟨_, hbs, ?_, ?_, ?_⟩
  · rw [List.length_take]
    omega
  · intro heq
    rw [heq] at hbs
    exact h.ne hbs
  · intro i hi
    refine h.within i fun heq => hi ?_
    by_cases hlt : i < as.length
    · rw [List.getElem?_take_of_lt hlt, heq, List.getElem?_append_left hlt]
    · rw [List.getElem?_take_eq_none (by omega), List.getElem?_eq_none (by omega)]

/-- A change at the end leaves the front as it is. -/
theorem of_append_right {zs : Bytes} (h : ChangedIn as.length stop (as ++ zs) bs) :
    ∃ last, bs = as ++ last ∧ last.length = zs.length ∧ last ≠ zs := by
  have hlen := h.length_eq
  have htake := h.take_eq
  rw [List.length_append] at hlen
  rw [List.take_left] at htake
  have hbs : bs = as ++ bs.drop as.length := by
    conv_lhs => rw [← List.take_append_drop as.length bs, htake]
  refine ⟨_, hbs, ?_, ?_⟩
  · rw [List.length_drop]
    omega
  · intro heq
    rw [heq] at hbs
    exact h.ne hbs

end ChangedIn

/-- The bytes with the bit at index `i` from the left flipped. -/
def flipBit (bs : Bytes) (i : Nat) : Bytes := bs.modify (i / 8) (· ^^^ 0x80 >>> UInt8.ofNat (i % 8))

theorem changedIn_flipBit {bs : Bytes} {i : Nat} (h : i < 8 * bs.length) :
    ChangedIn (i / 8) (i / 8 + 1) bs (flipBit bs i) where
  length_eq := List.length_modify _ _ _
  ne heq := by
    have hmask : ∀ k < 8, (0x80 : UInt8) >>> UInt8.ofNat k ≠ 0 := by decide
    have hbyte := congrArg (·[i / 8]?) heq
    rw [flipBit, List.getElem?_modify_eq, List.getElem?_eq_getElem (by omega)] at hbyte
    exact hmask (i % 8) (Nat.mod_lt i (by decide)) (xor_left_eq_self_iff.1 (Option.some.inj hbyte))
  within j hj := by
    have : i / 8 = j := by
      by_contra hne
      exact hj (List.getElem?_modify_ne _ bs hne)
    omega

end StreamDigest.Bytes
