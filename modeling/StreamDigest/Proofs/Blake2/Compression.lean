import StreamDigest.Proofs.Blake2.Standard

/-!
# The compression function is the standard's

A working vector is a vector of words in the library and a function in the
standard. `entries` takes the one to the other: it turns `set` into an
assignment, and from there each part of the compression function into the part
of the same name (`entries_mix`, `entries_round`, `entries_workingVector`).
-/

namespace StreamDigest.Blake2

variable {v : Variant}

/-- The words of a vector by their index. -/
def entries {n : Nat} (w : Vector v.Word n) (i : Fin n) : v.Word := w[i]

theorem entries_set {n : Nat} (w : Vector v.Word n) (i : Fin n) (x : v.Word) :
    entries (w.set i x) = Function.update (entries w) i x := by
  funext j
  by_cases h : j = i
  · subst h
    rw [Function.update_self]
    exact Vector.getElem_set_self j.isLt
  · rw [Function.update_of_ne h]
    exact Vector.getElem_set_ne i.isLt j.isLt fun h' => h (Fin.ext h'.symm)

theorem entries_append {n k : Nat} (w : Vector v.Word n) (w' : Vector v.Word k) :
    entries (w ++ w') = Fin.append (entries w) (entries w') := by
  funext i
  refine Fin.addCases (fun i => ?_) (fun i => ?_) i
  · rw [Fin.append_left]
    exact Vector.getElem_append_left i.isLt
  · rw [Fin.append_right]
    refine (Vector.getElem_append_right (i.natAdd n).isLt (Nat.le_add_right n i)).trans ?_
    simp [entries]

theorem entries_ofFn {n : Nat} (f : Fin n → v.Word) : entries (Vector.ofFn f) = f := by
  funext i
  exact Vector.getElem_ofFn i.isLt

theorem rotations_eq (v : Variant) : v.rotations =
    ((Standard.rotation v).R₁, (Standard.rotation v).R₂, (Standard.rotation v).R₃,
      (Standard.rotation v).R₄) := by
  cases v <;> rfl

/-- Four places assigned to twice hold what they were given last. -/
theorem update_again {α β : Type} [DecidableEq α] (f : α → β) {a b c d : α}
    (hbc : b ≠ c) (hbd : b ≠ d) (hcd : c ≠ d)
    (a₁ b₁ c₁ d₁ a₂ b₂ c₂ d₂ : β) :
    ((Function.update (Function.update (Function.update (Function.update
      (Function.update (Function.update (Function.update (Function.update f a a₁) d d₁) c c₁) b b₁)
        a a₂) d d₂) c c₂) b b₂)) =
      Function.update (Function.update (Function.update (Function.update f a a₂) b b₂) c c₂)
        d d₂ := by
  funext i
  simp only [Function.update_apply]
  grind

theorem entries_mix (w : Vector v.Word 16) {a b c d : Fin 16} (x y : v.Word)
    (hab : a ≠ b) (hac : a ≠ c) (had : a ≠ d) (hbc : b ≠ c) (hbd : b ≠ d) (hcd : c ≠ d) :
    entries (mix w a b c d x y) = Standard.mixing v (entries w) a b c d x y := by
  unfold mix Standard.mixing
  rw [rotations_eq]
  simp only [entries_set, Function.update_self, Function.update_of_ne hab,
    Function.update_of_ne hac, Function.update_of_ne had, Function.update_of_ne hbc,
    Function.update_of_ne hbd, Function.update_of_ne hcd, Function.update_of_ne hab.symm,
    Function.update_of_ne hac.symm, Function.update_of_ne had.symm,
    Function.update_of_ne hbc.symm, Function.update_of_ne hbd.symm,
    Function.update_of_ne hcd.symm]
  exact (update_again (entries w) hbc hbd hcd _ _ _ _ _ _ _ _).symm

theorem get_orderOf (r : Nat) (i : Fin 16) : (orderOf r).get i = Standard.schedule r i := by
  have h : ∀ (q : Fin 10) (i : Fin 16), (sigma.get q).get i =
      Fin.ofNat 16 (Standard.schedules.getD q 0 / 16 ^ (15 - i.val)) := by decide +kernel
  exact h (Fin.ofNat 10 r) i

theorem entries_round (m w : Vector v.Word 16) (r : Nat) :
    entries (round m w (orderOf r)) = Standard.roundOf v (entries m) (entries w) r := by
  have horder : ∀ i : Fin 16, (orderOf r)[i] = Standard.schedule r i := get_orderOf r
  unfold round Standard.roundOf
  simp only [horder]
  rw [entries_mix, entries_mix, entries_mix, entries_mix, entries_mix, entries_mix, entries_mix,
    entries_mix]
  · rfl
  all_goals decide

theorem entries_iv (v : Variant) : entries v.iv = Standard.initial v := by
  funext i
  cases v <;> fin_cases i <;> decide +kernel

theorem wordLen_eq (v : Variant) : v.wordLen = Standard.blockBytes v / 16 := by cases v <;> rfl

theorem entries_wordsOf (n : Nat) (bs : Bytes) :
    entries (wordsOf v n bs) = Standard.words v n bs := by
  rw [wordsOf, entries_ofFn, wordLen_eq]
  rfl

theorem entries_workingVector (h : Vector v.Word 8) (t : Nat) (f : Bool) :
    entries (workingVector h t f) = Standard.startVector v (entries h) t f := by
  have hstart : entries (h ++ v.iv : Vector v.Word 16) =
      Fin.append (entries h) (Standard.initial v) := by
    rw [entries_append, entries_iv]
  have hlow : BitVec.ofNat v.wordBits t = BitVec.ofNat v.wordBits (t % 2 ^ v.wordBits) :=
    BitVec.eq_of_toNat_eq (by simp)
  have hset : ∀ (w : Vector v.Word 16) (i : Nat) (hi : i < 16) (x : v.Word),
      entries (w.set i (w[i] ^^^ x) hi) =
        Function.update (entries w) ⟨i, hi⟩ (entries w ⟨i, hi⟩ ^^^ x) :=
    fun w i hi x => entries_set w ⟨i, hi⟩ _
  unfold workingVector Standard.startVector
  rw [hlow, Nat.shiftRight_eq_div_pow, ← hstart]
  cases f with
  | false =>
    simp only [Bool.false_eq_true, if_false, hset]
    rfl
  | true =>
    simp only [if_true, ← BitVec.xor_allOnes, hset]
    rfl

theorem entries_foldl_round (m w : Vector v.Word 16) (rs : List Nat) :
    entries ((rs.map orderOf).foldl (round m) w) =
      rs.foldl (Standard.roundOf v (entries m)) (entries w) := by
  induction rs generalizing w with
  | nil => rfl
  | cons r rs ih => rw [List.map_cons, List.foldl_cons, ih, entries_round, List.foldl_cons]

theorem rounds_eq (v : Variant) : v.rounds = Standard.roundCount v := by cases v <;> rfl

/-- The chaining value after an input is what the compression function makes of it. -/
theorem entries_compress (h : Vector v.Word 8) (x : Input) :
    entries (compress h x).1 =
      Standard.compression v (entries h) (Standard.words v 16 x.block) x.counter x.last := by
  have hrounds : entries (rounds h x) = (List.range (Standard.roundCount v)).foldl
      (Standard.roundOf v (Standard.words v 16 x.block))
      (Standard.startVector v (entries h) x.counter x.last) := by
    rw [rounds, entries_foldl_round, entries_wordsOf, entries_workingVector, rounds_eq]
  unfold Standard.compression
  rw [← hrounds]
  funext i
  have hi : (i.natAdd 8 : Fin 16) = ⟨i + 8, by omega⟩ := Fin.ext (Nat.add_comm 8 i)
  rw [hi]
  exact congrFun (entries_ofFn _) i

end StreamDigest.Blake2
