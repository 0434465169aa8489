import StreamDigest.Poly1305.Core
import StreamDigest.Proofs.Bytes.Endian
import StreamDigest.Proofs.Bytes.Slices

/-!
# Poly1305 as the standard writes it

The tag of RFC 8439, section 2.5, over the natural numbers: the pieces of the
message are the coefficients of a polynomial, which is evaluated at the clamped
half of the key. `foldl_horner` evaluates it from the front, a piece at a time.
-/

namespace StreamDigest.Poly1305

/-- The prime `2 ^ 130 - 5`. -/
def modulus : Nat := 2 ^ 130 - 5

namespace Standard

/-- The bits that the multiplier keeps. -/
def clampMask : Nat := 0x0ffffffc0ffffffc0ffffffc0fffffff

/-- The first half of the key, clamped. -/
def multiplier (key : Key) : Nat := Bytes.ofLE (key.toBytes.take 16) &&& clampMask

/-- The second half of the key. -/
def pad (key : Key) : Nat := Bytes.ofLE (key.toBytes.drop 16)

/-- A piece of the message with a one byte behind it. -/
def coefficient (piece : Bytes) : Nat := Bytes.ofLE (piece ++ [1])

/-- The coefficients of a message, from pieces of 16 bytes; the last may be shorter. -/
def coefficients (m : Bytes) : List Nat := (Bytes.segments 16 m).map coefficient

/-- The sum of `c₁ * r ^ q`, `c₂ * r ^ (q - 1)`, up to `c_q * r`. -/
def polynomial (r : Nat) (cs : List Nat) : Nat :=
  ∑ i : Fin cs.length, cs[i] * r ^ (cs.length - i)

/-- The tag of a message. -/
def tag (key : Key) (m : Bytes) : Bytes :=
  Bytes.toLE 16
    ((polynomial (multiplier key) (coefficients m) % modulus + pad key) % 2 ^ 128)

theorem polynomial_cons (r c : Nat) (cs : List Nat) :
    polynomial r (c :: cs) = c * r ^ (cs.length + 1) + polynomial r cs := by
  unfold polynomial
  refine (Fin.sum_univ_succ _).trans ?_
  congr 1
  apply Finset.sum_congr rfl
  intro i _
  change cs[i] * r ^ (cs.length + 1 - (i + 1)) = _
  rw [Nat.add_sub_add_right]

theorem foldl_horner (r h : Nat) (cs : List Nat) :
    cs.foldl (fun h c => (h + c) * r) h = h * r ^ cs.length + polynomial r cs := by
  induction cs generalizing h with
  | nil => simp [polynomial]
  | cons c cs ih =>
    rw [List.foldl_cons, ih, polynomial_cons, List.length_cons, pow_succ]
    ring

theorem coefficient_eq (piece : Bytes) :
    coefficient piece = Bytes.ofLE piece + 256 ^ piece.length := by
  have hone : Bytes.ofLE [1] = 1 := by decide
  rw [coefficient, Bytes.ofLE_append, hone, Nat.mul_one]

theorem coefficients_nil : coefficients [] = [] := by
  rw [coefficients, Bytes.segments_nil, List.map_nil]

theorem coefficients_cons {m : Bytes} (h : m ≠ []) :
    coefficients m = coefficient (m.take 16) :: coefficients (m.drop 16) := by
  rw [coefficients, Bytes.segments_cons (by decide) h, List.map_cons, coefficients]

theorem coefficients_single {m : Bytes} (h : m ≠ []) (hl : m.length ≤ 16) :
    coefficients m = [coefficient m] := by
  rw [coefficients, Bytes.segments_single (by decide) h hl, List.map_singleton]

end Standard

end StreamDigest.Poly1305
