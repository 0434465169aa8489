import StreamDigest.Proofs.Bytes.Slices
import StreamDigest.Serial.Array

/-!
# Texts of ASCII

The text of bytes that are characters of ASCII (`asciiText`) is also what a JSON string
stands for whose bytes they are, in whatever way its characters are written
(`textOfPieces_eq_ok`).
-/

namespace StreamDigest.Serial

open Json (Piece pointsOf encodePoint bytesOfPieces textFault? textOfPieces)

variable {bs : Bytes} {pieces : List Piece}

/-- Bytes that are characters of ASCII, and no zeros. -/
def Ascii (bs : Bytes) : Prop := ∀ b ∈ bs, 0 < b.toNat ∧ b.toNat < 128

def charOf (b : UInt8) : Char := Char.ofNat b.toNat

theorem toNat_charOf (b : UInt8) : (charOf b).toNat = b.toNat := by
  have hb := b.toNat_lt
  rw [charOf, Char.toNat_ofNat, if_pos (.inl (by omega))]

theorem exists_high_of_encodePoint {p : Nat} (h : 128 ≤ p) :
    ∃ b ∈ encodePoint p, 128 ≤ b.toNat := by
  unfold encodePoint
  split_ifs
  · omega
  · exact ⟨UInt8.ofNat (0x80 + p % 64), by simp, by rw [UInt8.toNat_ofNat']; omega⟩
  · exact ⟨UInt8.ofNat (0x80 + p % 64), by simp, by rw [UInt8.toNat_ofNat']; omega⟩
  · exact ⟨UInt8.ofNat (0x80 + p % 64), by simp, by rw [UInt8.toNat_ofNat']; omega⟩

/-- Characters of ASCII are their own encoding, and no others are encoded so. -/
theorem flatMap_encodePoint_eq {points : List Nat} (h : Ascii bs) :
    points.flatMap encodePoint = bs ↔ points = bs.map UInt8.toNat := by
  induction points generalizing bs with
  | nil => cases bs <;> simp
  | cons p points ih =>
    rw [List.flatMap_cons]
    by_cases hp : p < 128
    · have hencode : encodePoint p = [UInt8.ofNat p] := if_pos hp
      rw [hencode, List.singleton_append]
      cases bs with
      | nil => simp
      | cons b bs =>
        obtain ⟨hb, hbs⟩ := List.forall_mem_cons.1 h
        rw [List.cons.injEq, List.map_cons, List.cons.injEq, ih hbs]
        refine and_congr_left fun _ => ?_
        rw [← UInt8.toNat_inj, UInt8.toNat_ofNat', Nat.mod_eq_of_lt (by omega)]
    · obtain ⟨b, hb, hhigh⟩ := exists_high_of_encodePoint (Nat.le_of_not_lt hp)
      constructor
      · intro hbs
        have hmem : b ∈ bs := hbs ▸ List.mem_append_left _ hb
        have hlow := (h b hmem).2
        omega
      · intro hpoints
        obtain ⟨b', hb', rfl⟩ := List.mem_map.1 (hpoints ▸ List.mem_cons_self)
        exact absurd (h b' hb').2 hp

/-- The characters of a string are those of ASCII bytes if its code points are the bytes. -/
theorem map_ofNat_eq {points : List Nat} (h : Ascii bs) :
    points.map Char.ofNat = bs.map charOf ↔ points = bs.map UInt8.toNat := by
  constructor
  · intro hchars
    have hnats : points.map (fun p => (Char.ofNat p).toNat) = bs.map UInt8.toNat := by
      rw [← Function.comp_def, ← List.map_map, hchars, List.map_map]
      exact List.map_congr_left fun b _ => toNat_charOf b
    -- a number that is no code point would give a zero
    have hpoint : ∀ p ∈ points, (Char.ofNat p).toNat = p := by
      intro p hp
      obtain ⟨b, hb, hbp⟩ := List.mem_map.1 (hnats ▸ List.mem_map_of_mem hp :
        (Char.ofNat p).toNat ∈ bs.map UInt8.toNat)
      have hpos := (h b hb).1
      rw [Char.toNat_ofNat] at hbp ⊢
      split_ifs at hbp ⊢
      · rfl
      · omega
    rw [← hnats, List.map_congr_left hpoint, List.map_id']
  · rintro rfl
    rw [List.map_map]
    rfl

theorem textOfPieces_eq_ok (h : Ascii bs) : textOfPieces pieces = .ok (asciiText bs) ↔
    textFault? pieces = none ∧ bytesOfPieces pieces = bs := by
  have htext : asciiText bs = String.ofList (bs.map charOf) := rfl
  rw [bytesOfPieces, flatMap_encodePoint_eq h, ← map_ofNat_eq h, textOfPieces, htext]
  cases textFault? pieces with
  | some fault => simp
  | none => simp [String.ofList_inj]

theorem pieces_charOf (bs : Bytes) :
    textFault? ((bs.map charOf).map .char) = none ∧
      pointsOf ((bs.map charOf).map .char) = bs.map UInt8.toNat := by
  induction bs with
  | nil => exact ⟨rfl, rfl⟩
  | cons b bs ih =>
    simp only [List.map_cons, textFault?, pointsOf, ih, toNat_charOf]
    exact ⟨trivial, trivial⟩

theorem bytesOfPieces_charOf (h : Ascii bs) : bytesOfPieces ((bs.map charOf).map .char) = bs := by
  rw [bytesOfPieces, (pieces_charOf bs).2, flatMap_encodePoint_eq h]

theorem textFault?_eq_none : textFault? pieces = none ↔ ∃ s, textOfPieces pieces = .ok s := by
  unfold textOfPieces
  cases textFault? pieces <;> simp

end StreamDigest.Serial
