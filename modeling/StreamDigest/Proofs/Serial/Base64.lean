import StreamDigest.Base64
import StreamDigest.Proofs.Bytes.Slices

/-!
# Base64 texts

A byte string is a list of 6-bit numbers (`valuesOf`), and its text is their symbols
filled up to groups of four (`padded`). Decoding takes the symbols off the text again and
accepts them only with the padding that fills them up and no bits behind the last byte, so
that a byte string has one text (`decode_eq_ok`).
-/

namespace StreamDigest.Base64

variable {bs text : Bytes} {values : List Nat} {b : UInt8} {n : Nat}

/-! ## Symbols -/

theorem value?_symbol (h : n < 64) : value? (symbol n) = some n := by
  have hall : ∀ n : Fin 64, value? (symbol n) = some n.val := by decide
  exact hall ⟨n, h⟩

theorem value?_eq_some (h : value? b = some n) : n < 64 ∧ symbol n = b := by
  have hb := b.toNat_lt
  rw [← UInt8.toNat_inj]
  unfold value? at h
  dsimp only at h
  split_ifs at h <;> cases h <;> unfold symbol <;> refine ⟨by omega, ?_⟩
  · rw [if_pos (by omega), UInt8.toNat_ofNat']
    omega
  · rw [if_neg (by omega), if_pos (by omega), UInt8.toNat_ofNat']
    omega
  · rw [if_neg (by omega), if_neg (by omega), if_pos (by omega), UInt8.toNat_ofNat']
    omega
  · rename_i h43
    exact h43.symm
  · rename_i h47
    exact h47.symm

theorem isSymbol_symbol (h : n < 64) : isSymbol (symbol n) = true := by
  rw [isSymbol, value?_symbol h, Option.isSome_some]

theorem values_symbols (h : ∀ v ∈ values, v < 64) :
    (values.map symbol).filterMap value? = values := by
  have hcongr : ∀ v ∈ values, (value? ∘ symbol) v = some v := fun v hv => value?_symbol (h v hv)
  rw [List.filterMap_map, List.filterMap_congr hcongr, List.filterMap_some]

theorem symbols_values (h : ∀ b ∈ text, isSymbol b) :
    (text.filterMap value?).map symbol = text := by
  induction text with
  | nil => rfl
  | cons b text ih =>
    obtain ⟨n, hn⟩ := Option.isSome_iff_exists.1 (h b List.mem_cons_self)
    rw [List.filterMap_cons_some hn, List.map_cons, (value?_eq_some hn).2,
      ih fun b hb => h b (List.mem_cons_of_mem _ hb)]

/-! ## Numbers of six bits -/

/-- The 6-bit numbers of a byte string, filled up with zeros behind the last byte. -/
def valuesOf : Bytes → List Nat
  | [] => []
  | [a] => [a.toNat / 4, a.toNat % 4 * 16]
  | [a, b] => [a.toNat / 4, a.toNat % 4 * 16 + b.toNat / 16, b.toNat % 16 * 4]
  | a :: b :: c :: rest =>
    a.toNat / 4 :: (a.toNat % 4 * 16 + b.toNat / 16) ::
      (b.toNat % 16 * 4 + c.toNat / 64) :: (c.toNat % 64) :: valuesOf rest

/-- The symbols of numbers, filled up to groups of four. -/
def padded (values : List Nat) : Bytes :=
  values.map symbol ++ List.replicate ((4 - values.length % 4) % 4) pad

/-- What byte strings have for numbers: no group of one is left over. -/
structure Whole (values : List Nat) : Prop where
  lt : ∀ v ∈ values, v < 64
  length : values.length % 4 ≠ 1

theorem encode_eq (bs : Bytes) : encode bs = padded (valuesOf bs) := by
  fun_induction encode bs with
  | case1 => rfl
  | case2 a => rfl
  | case3 a b => rfl
  | case4 a b c rest ih =>
    rw [ih]
    simp only [valuesOf, padded, List.map_cons, List.cons_append, List.length_cons, Nat.add_assoc,
      Nat.add_mod_right]

theorem whole_valuesOf (bs : Bytes) : Whole (valuesOf bs) := by
  fun_induction valuesOf bs with
  | case1 => exact ⟨by simp, by decide⟩
  | case2 a =>
    have ha := a.toNat_lt
    refine ⟨?_, by simp⟩
    simp only [List.forall_mem_cons]
    exact ⟨by omega, by omega, by simp⟩
  | case3 a b =>
    have ha := a.toNat_lt
    have hb := b.toNat_lt
    refine ⟨?_, by simp⟩
    simp only [List.forall_mem_cons]
    exact ⟨by omega, by omega, by omega, by simp⟩
  | case4 a b c rest ih =>
    have ha := a.toNat_lt
    have hb := b.toNat_lt
    have hc := c.toNat_lt
    refine ⟨?_, ?_⟩
    · simp only [List.forall_mem_cons]
      exact ⟨by omega, by omega, by omega, by omega, ih.lt⟩
    · have hlen := ih.length
      simp only [List.length_cons]
      omega

theorem ofNat_eq (h : n = b.toNat) : UInt8.ofNat n = b := by
  rw [h, UInt8.ofNat_toNat]

theorem bytesOfValues_valuesOf (bs : Bytes) : bytesOfValues (valuesOf bs) = some bs := by
  fun_induction valuesOf bs with
  | case1 => rfl
  | case2 a =>
    rw [bytesOfValues, if_pos (by omega), ofNat_eq (b := a) (by omega)]
  | case3 a b =>
    have hb := b.toNat_lt
    rw [bytesOfValues, if_pos (by omega), ofNat_eq (b := a) (by omega), ofNat_eq (b := b) (by omega)]
  | case4 a b c rest ih =>
    have hb := b.toNat_lt
    have hc := c.toNat_lt
    rw [bytesOfValues, ih, ofNat_eq (b := a) (by omega), ofNat_eq (b := b) (by omega),
      ofNat_eq (b := c) (by omega)]
    rfl

/-- Numbers that are accepted are those of their bytes. -/
theorem valuesOf_of_bytesOfValues (h : Whole values) (hbs : bytesOfValues values = some bs) :
    valuesOf bs = values := by
  fun_induction bytesOfValues values generalizing bs with
  | case1 a b c d rest ih =>
    obtain ⟨ha, hb, hc, hd, hrest⟩ : a < 64 ∧ b < 64 ∧ c < 64 ∧ d < 64 ∧ ∀ v ∈ rest, v < 64 := by
      simpa only [List.forall_mem_cons] using h.lt
    have hlen := h.length
    simp only [List.length_cons] at hlen
    obtain ⟨bs', hbs', hcons⟩ := Option.bind_eq_some_iff.1 hbs
    cases hcons
    simp only [valuesOf, UInt8.toNat_ofNat', ih ⟨hrest, by omega⟩ hbs', List.cons.injEq, and_true]
    omega
  | case2 a b c hzero =>
    obtain ⟨ha, hb, hc, -⟩ : a < 64 ∧ b < 64 ∧ c < 64 ∧ ∀ v ∈ [], v < 64 := by
      simpa only [List.forall_mem_cons] using h.lt
    cases hbs
    simp only [valuesOf, UInt8.toNat_ofNat', List.cons.injEq, and_true]
    omega
  | case3 a b c hzero => cases hbs
  | case4 a b hzero =>
    obtain ⟨ha, hb, -⟩ : a < 64 ∧ b < 64 ∧ ∀ v ∈ [], v < 64 := by
      simpa only [List.forall_mem_cons] using h.lt
    cases hbs
    simp only [valuesOf, UInt8.toNat_ofNat', List.cons.injEq, and_true]
    omega
  | case5 a b hzero => cases hbs
  | case6 a => exact absurd rfl h.length
  | case7 => cases hbs; rfl

/-! ## Texts -/

theorem takeWhile_padded (h : ∀ v ∈ values, v < 64) :
    (padded values).takeWhile isSymbol = values.map symbol := by
  have hsymbols : ∀ b ∈ values.map symbol, isSymbol b = true := by
    intro b hb
    obtain ⟨v, hv, rfl⟩ := List.mem_map.1 hb
    exact isSymbol_symbol (h v hv)
  rw [padded, List.takeWhile_append_of_pos hsymbols, List.takeWhile_replicate]
  simp [show isSymbol pad = false by decide]

theorem trailer_padded (h : ∀ v ∈ values, v < 64) :
    trailer (padded values) = List.replicate ((4 - values.length % 4) % 4) pad := by
  have hsplit := List.takeWhile_append_dropWhile (p := isSymbol) (l := padded values)
  rw [takeWhile_padded h] at hsplit
  exact List.append_cancel_left hsplit

theorem length_padded (values : List Nat) : (padded values).length % 4 = 0 := by
  rw [padded, List.length_append, List.length_map, List.length_replicate]
  omega

/-- What may stand behind symbols: nothing, or padding that fills them up. -/
theorem checkTrailer_eq_ok : checkTrailer text = .ok () ↔
    trailer text = [] ∨ paddingFits (text.takeWhile isSymbol).length (trailer text) = true := by
  unfold checkTrailer
  cases htrailer : trailer text with
  | nil => simp
  | cons b rest =>
    by_cases hfits : paddingFits (text.takeWhile isSymbol).length (b :: rest) = true
    · have hpad : b = pad := by
        simp only [paddingFits, Bool.and_eq_true, List.all_cons, beq_iff_eq] at hfits
        exact hfits.1.2.1
      simp [hpad]
    · simp [hfits]

/-- With whole groups all in all, nothing or padding is as much as fills up the symbols. -/
theorem eq_replicate_of_paddingFits {len : Nat} {padding : Bytes}
    (h : padding = [] ∨ paddingFits len padding = true) (hlen : (len + padding.length) % 4 = 0) :
    len % 4 ≠ 1 ∧ padding = List.replicate ((4 - len % 4) % 4) pad := by
  rw [List.eq_replicate_iff]
  rcases h with rfl | hfits
  · rw [List.length_nil] at hlen ⊢
    exact ⟨by omega, by omega, by simp⟩
  · simp only [paddingFits, Bool.and_eq_true, decide_eq_true_eq, List.all_eq_true,
      beq_iff_eq] at hfits
    obtain ⟨⟨htwo, hpad⟩, hfour⟩ := hfits
    exact ⟨by omega, by omega, hpad⟩

theorem paddingFits_replicate {len : Nat} (h : len % 4 ≠ 1) (hne : len % 4 ≠ 0) :
    paddingFits len (List.replicate ((4 - len % 4) % 4) pad) = true := by
  simp only [paddingFits, Bool.and_eq_true, decide_eq_true_eq, List.all_eq_true, beq_iff_eq,
    List.length_replicate]
  exact ⟨⟨by omega, fun b hb => List.eq_of_mem_replicate hb⟩, by omega⟩

theorem decode_padded (h : Whole values) (hbs : bytesOfValues values = some bs) :
    decode (padded values) = .ok bs := by
  have hlen := length_padded values
  have hremainder : checkRemainder (padded values) = .ok () := if_neg (by omega)
  have htrailer : checkTrailer (padded values) = .ok () := by
    rw [checkTrailer_eq_ok, trailer_padded h.lt, takeWhile_padded h.lt, List.length_map]
    have hone := h.length
    by_cases hzero : values.length % 4 = 0
    · rw [hzero]
      exact .inl rfl
    · exact .inr (paddingFits_replicate hone hzero)
  unfold decode
  simp only [hremainder, htrailer, hlen, takeWhile_padded h.lt, values_symbols h.lt, hbs]
  rfl

/-- A text that is decoded is padded. -/
theorem exists_values (h : decode text = .ok bs) :
    ∃ values, Whole values ∧ text = padded values ∧ bytesOfValues values = some bs := by
  unfold decode at h
  obtain ⟨_, -, h⟩ := except_bind_eq_ok.1 h
  obtain ⟨_, htrailer, h⟩ := except_bind_eq_ok.1 h
  split at h
  · cases h
  rename_i hlen
  dsimp only at h
  split at h
  · rename_i bs' hbs
    cases h
    have hsymbols : ((text.takeWhile isSymbol).filterMap value?).map symbol =
        text.takeWhile isSymbol :=
      symbols_values fun b hb => List.mem_takeWhile_imp hb
    have hcount := congrArg List.length hsymbols
    rw [List.length_map] at hcount
    have htext : text.takeWhile isSymbol ++ trailer text = text := List.takeWhile_append_dropWhile
    have htotal := congrArg List.length htext
    rw [List.length_append] at htotal
    obtain ⟨hone, hpadding⟩ :=
      eq_replicate_of_paddingFits (checkTrailer_eq_ok.1 htrailer) (by omega)
    refine ⟨_, ⟨fun v hv => ?_, by rwa [hcount]⟩, ?_, hbs⟩
    · obtain ⟨b, -, hb⟩ := List.mem_filterMap.1 hv
      exact (value?_eq_some hb).1
    · rw [padded, hsymbols, hcount, ← hpadding, htext]
  · cases h

/-- **A byte string has one text.** -/
theorem decode_eq_ok : decode text = .ok bs ↔ text = encode bs := by
  constructor
  · intro h
    obtain ⟨values, hwhole, rfl, hbs⟩ := exists_values h
    rw [encode_eq, valuesOf_of_bytesOfValues hwhole hbs]
  · rintro rfl
    rw [encode_eq]
    exact decode_padded (whole_valuesOf bs) (bytesOfValues_valuesOf bs)

end StreamDigest.Base64
