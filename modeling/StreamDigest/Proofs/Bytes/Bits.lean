import StreamDigest.Proofs.Bytes.Endian

/-!
# Bits of byte strings

`bit bs i` is the bit at index `i` of a byte string read from the left, each
byte from its most significant bit on. The bits of a number written most
significant byte first are its binary digits from the top (`testBit_ofBE`).
-/

namespace StreamDigest.Bytes

/-- The bit at index `i` from the left. -/
def bit (bs : Bytes) (i : Nat) : Bool := (bs.getD (i / 8) 0).toNat.testBit (7 - i % 8)

theorem testBit_ofLE (bs : Bytes) (i : Nat) :
    (ofLE bs).testBit i = (bs.getD (i / 8) 0).toNat.testBit (i % 8) := by
  induction bs generalizing i with
  | nil => simp [ofLE]
  | cons b bs ih =>
    have hb : b.toNat < 2 ^ 8 := b.toNat_lt
    rw [ofLE, Nat.add_comm, show 256 = 2 ^ 8 by rfl, Nat.testBit_two_pow_mul_add _ hb]
    split
    · rw [Nat.div_eq_of_lt ‹_›, Nat.mod_eq_of_lt ‹_›]
      rfl
    · obtain ⟨j, rfl⟩ : ∃ j, i = j + 8 := ⟨i - 8, by omega⟩
      rw [Nat.add_sub_cancel, ih, Nat.add_div_right j (by decide), Nat.add_mod_right]
      rfl

theorem testBit_ofBE {bs : Bytes} {i : Nat} (h : i < 8 * bs.length) :
    (ofBE bs).testBit (8 * bs.length - 1 - i) = bit bs i := by
  have hindex : (8 * bs.length - 1 - i) / 8 = bs.length - 1 - i / 8 := by omega
  have hshift : (8 * bs.length - 1 - i) % 8 = 7 - i % 8 := by omega
  rw [ofBE, testBit_ofLE, hindex, hshift, bit]
  congr 2
  rw [List.getD_eq_getElem?_getD, List.getD_eq_getElem?_getD, List.getElem?_reverse (by omega)]
  congr 2
  omega

/-! ## Exclusive or -/

theorem length_xor (as bs : Bytes) : (xor as bs).length = min as.length bs.length :=
  List.length_zipWith

theorem xor_comm (as bs : Bytes) : xor as bs = xor bs as :=
  List.zipWith_comm_of_comm UInt8.xor_comm

theorem xor_take (as bs : Bytes) : xor as (bs.take as.length) = xor as bs := by
  induction as generalizing bs with
  | nil => simp [xor]
  | cons a as ih =>
    cases bs with
    | nil => rfl
    | cons b bs => exact congrArg (_ :: ·) (ih bs)

/-- What a long enough string was added to comes back when it is added again. -/
theorem xor_xor_cancel {as bs : Bytes} (h : as.length ≤ bs.length) : xor (xor as bs) bs = as := by
  apply List.ext_getElem
  · rw [length_xor, length_xor]
    omega
  · intro i _ hi
    simp [xor]

theorem bit_xor {as bs : Bytes} (h : as.length = bs.length) (i : Nat) :
    bit (xor as bs) i = (bit as i ^^ bit bs i) := by
  have hbyte : (xor as bs).getD (i / 8) 0 = as.getD (i / 8) 0 ^^^ bs.getD (i / 8) 0 := by
    simp only [xor, List.getD_eq_getElem?_getD, List.getElem?_zipWith]
    by_cases hi : i / 8 < as.length
    · simp [hi, h ▸ hi]
    · simp [hi, h ▸ hi]
  rw [bit, hbyte, UInt8.toNat_xor, Nat.testBit_xor]
  rfl

end StreamDigest.Bytes
