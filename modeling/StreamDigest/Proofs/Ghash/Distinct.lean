import StreamDigest.Proofs.Bytes.Changes
import StreamDigest.Proofs.Ghash.Digest
import StreamDigest.Proofs.Ghash.Irreducible

/-!
# Messages that differ in one element

With a hash key other than zero each step of the fold can be undone, so the
accumulator is injective in where it starts (`accumulate_injective`) and in any
one of the elements (`accumulate_ne`). A change within one block of a message
is a change of one of its elements (`ChangedIn.elements`), also if the block is
short, for the zeros behind it stay.
-/

namespace StreamDigest

namespace Ghash

theorem accumulate_cons (h y x : Element) (xs : List Element) :
    accumulate h y (x :: xs) = accumulate h (mul (y ^^^ x) h) xs := rfl

theorem accumulate_append (h y : Element) (xs ys : List Element) :
    accumulate h y (xs ++ ys) = accumulate h (accumulate h y xs) ys := List.foldl_append

theorem accumulate_injective {h : Element} (hh : h ≠ 0) (xs : List Element) :
    Function.Injective (accumulate h · xs) := by
  induction xs with
  | nil => exact fun y y' heq => heq
  | cons x xs ih =>
    intro y y' heq
    exact BitVec.xor_left_inj x |>.1 (mul_right_cancel hh (ih heq))

/-- One element that is another gives another value. -/
theorem accumulate_ne {h : Element} (hh : h ≠ 0) (y : Element) (front back : List Element)
    {x x' : Element} (hx : x' ≠ x) :
    accumulate h y (front ++ x' :: back) ≠ accumulate h y (front ++ x :: back) := by
  intro heq
  -- undo the steps behind the element, then the step that takes it in
  rw [accumulate_append, accumulate_append, accumulate_cons, accumulate_cons] at heq
  exact hx (BitVec.xor_right_inj _ |>.1 (mul_right_cancel hh (accumulate_injective hh back heq)))

theorem elementOf_padTo_inj {a b : Bytes} (ha : a.length ≤ 16) (hl : b.length = a.length)
    (h : elementOf (Bytes.padTo 16 b) = elementOf (Bytes.padTo 16 a)) : b = a :=
  Bytes.padTo_inj hl (elementOf_inj (Bytes.length_padTo (hl ▸ ha)) (Bytes.length_padTo ha) h)

end Ghash

/-- A change within a block is one of an element. -/
theorem Bytes.ChangedIn.elements {as bs : Bytes} {k : Nat}
    (h : Bytes.ChangedIn (16 * k) (16 * k + 16) as bs) :
    ∃ front x x' back, Ghash.elements as = front ++ x :: back ∧
      Ghash.elements bs = front ++ x' :: back ∧ x' ≠ x := by
  obtain ⟨i, hstart, -, hi, -⟩ := h.exists_changed
  have hlen := h.length_eq
  have hcut : ∀ cs : Bytes, cs.length = as.length → Ghash.elements cs =
      Ghash.elements (cs.take (16 * k)) ++
        Ghash.elementOf (Bytes.padTo 16 ((cs.drop (16 * k)).take 16)) ::
          Ghash.elements (cs.drop (16 * k + 16)) := by
    intro cs hcs
    have hne : cs.drop (16 * k) ≠ [] := by
      rw [ne_eq, List.drop_eq_nil_iff]
      omega
    have hdvd : 16 ∣ (cs.take (16 * k)).length := by
      rw [List.length_take_of_le (by omega)]
      exact Nat.dvd_mul_right 16 k
    conv_lhs => rw [← List.take_append_drop (16 * k) cs]
    rw [Ghash.elements_append _ _ hdvd, Ghash.elements_cons hne, List.drop_drop]
  have hbs := hcut bs hlen
  rw [h.take_eq, h.drop_eq] at hbs
  refine ⟨_, _, _, _, hcut as rfl, hbs, fun heq => ?_⟩
  refine h.middle_ne (Ghash.elementOf_padTo_inj (List.length_take_le 16 _) ?_ heq)
  rw [List.length_take, List.length_take, List.length_drop, List.length_drop, hlen]

end StreamDigest
