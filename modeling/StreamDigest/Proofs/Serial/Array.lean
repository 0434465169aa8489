import StreamDigest.Proofs.Bytes.Slices
import StreamDigest.Proofs.Serial.Base64
import StreamDigest.Proofs.Serial.Json
import StreamDigest.Proofs.Serial.Text
import StreamDigest.Serial.Array

/-!
# Arrays and their serialized forms

Both forms of an array are read back as that array, and as an array of another length
never. Nothing else is read as an array: a text is the base64 text of the bytes
(`ofBase64_eq_ok`), and a sequence has just these bytes as elements (`ofElements_eq_ok`).
A sequence that is no array fails with the first fault, unless it is too long before it.
-/

namespace StreamDigest.Serial

open Json (bytesOfPieces textFault? textOfPieces Plain)

variable {n : Nat} {a : FixedBytes n} {bs text : Bytes}

/-! ## Base64 texts -/

theorem encode_mem {b : UInt8} (h : b ∈ Base64.encode bs) :
    43 ≤ b.toNat ∧ b.toNat < 128 ∧ b.toNat ≠ 92 := by
  have hsymbol : ∀ v : Fin 64, 43 ≤ (Base64.symbol v).toNat ∧ (Base64.symbol v).toNat < 128 ∧
      (Base64.symbol v).toNat ≠ 92 := by decide
  rw [Base64.encode_eq, Base64.padded, List.mem_append] at h
  rcases h with h | h
  · obtain ⟨v, hv, rfl⟩ := List.mem_map.1 h
    exact hsymbol ⟨v, (Base64.whole_valuesOf bs).lt v hv⟩
  · rw [List.eq_of_mem_replicate h]
    decide

theorem ascii_encode (bs : Bytes) : Ascii (Base64.encode bs) := by
  intro b hb
  have hrange := encode_mem hb
  omega

theorem plain_encode (bs : Bytes) : ∀ c ∈ (Base64.encode bs).map charOf, Plain c := by
  intro c hc
  obtain ⟨b, hb, rfl⟩ := List.mem_map.1 hc
  obtain ⟨hlow, -, hslash⟩ := encode_mem hb
  have hnat := toNat_charOf b
  refine ⟨by omega, ?_, ?_⟩ <;> intro hc <;> rw [hc] at hnat
  · exact absurd (hnat.symm.trans (by rfl : '"'.toNat = 34)) (by omega)
  · exact absurd (hnat.symm.trans (by rfl : '\\'.toNat = 92)) hslash

/-! ## Byte strings -/

theorem ofBytes_eq_ok {expected : Expected} : ofBytes n expected bs = .ok a ↔ bs = a.toBytes := by
  unfold ofBytes FixedBytes.ofBytes?
  constructor
  · intro h
    split_ifs at h with hlen
    cases h
    rfl
  · rintro rfl
    rw [dif_pos a.length_toBytes]
    rfl

theorem ofBytes_of_ne {expected : Expected} (h : bs.length ≠ n) :
    ofBytes n expected bs = .error (.wrongLength bs.length expected) := by
  rw [ofBytes, FixedBytes.ofBytes?, dif_neg h]

theorem ofBase64_eq_ok : ofBase64 n text = .ok a ↔ text = Base64.encode a.toBytes := by
  rw [← Base64.decode_eq_ok, ofBase64]
  cases Base64.decode text with
  | error fault => simp
  | ok bs => simp [ofBytes_eq_ok]

theorem reject_ne_ok {α : Type} (value : Json.Value) (expected : Expected) (x : α) :
    reject value expected ≠ .ok x := by
  intro h
  obtain ⟨_, -, hthrow⟩ := except_bind_eq_ok.1 h
  cases hthrow

/-- Of all values only strings are read as base64 texts, and of these the text of the bytes. -/
theorem ofValue_base64_eq_ok {value : Json.Value} : ofValue n .base64 value = .ok a ↔
    ∃ pieces, value = .string pieces ∧
      textOfPieces pieces = .ok (asciiText (Base64.encode a.toBytes)) := by
  cases value with
  | string pieces =>
    have hstring : (∃ pieces', Json.Value.string pieces = .string pieces' ∧
        textOfPieces pieces' = .ok (asciiText (Base64.encode a.toBytes))) ↔
        textFault? pieces = none ∧ bytesOfPieces pieces = Base64.encode a.toBytes := by
      rw [← textOfPieces_eq_ok (ascii_encode _)]
      exact ⟨by rintro ⟨_, ⟨⟩, h⟩; exact h, fun h => ⟨pieces, rfl, h⟩⟩
    rw [hstring, ← ofBase64_eq_ok, textFault?_eq_none, ofValue]
    cases textOfPieces pieces <;> simp
  | _ =>
    refine ⟨fun h => absurd h (reject_ne_ok _ _ a), ?_⟩
    rintro ⟨_, ⟨⟩, -⟩

/-! ## Sequences -/

/-- Elements that are the given bytes. -/
def elementsOf (bs : Bytes) : List (Except DecodeError UInt8) := bs.map .ok

variable {elements rest : List (Except DecodeError UInt8)} {taken : Bytes} {e : DecodeError}

@[simp] theorem length_elementsOf (bs : Bytes) : (elementsOf bs).length = bs.length :=
  List.length_map _

theorem getElem?_elementsOf_ne (bs : Bytes) (i : Nat) (e : DecodeError) :
    (elementsOf bs)[i]? ≠ some (.error e) := by
  simp [elementsOf]

theorem getElem?_fault (bs : Bytes) (e : DecodeError) (rest : List (Except DecodeError UInt8)) :
    (elementsOf bs ++ .error e :: rest)[bs.length]? = some (.error e) := by
  rw [← length_elementsOf bs, List.getElem?_append_right (Nat.le_refl _), Nat.sub_self]
  rfl

/-- A sequence starts with bytes, and ends there or goes on with a fault. -/
theorem eq_elementsOf_or (elements : List (Except DecodeError UInt8)) :
    (∃ bs, elements = elementsOf bs) ∨ ∃ bs e rest, elements = elementsOf bs ++ .error e :: rest := by
  induction elements with
  | nil => exact .inl ⟨[], rfl⟩
  | cons element elements ih =>
    cases element with
    | error e => exact .inr ⟨[], e, elements, rfl⟩
    | ok b =>
      rcases ih with ⟨bs, rfl⟩ | ⟨bs, e, rest, rfl⟩
      · exact .inl ⟨b :: bs, rfl⟩
      · exact .inr ⟨b :: bs, e, rest, rfl⟩

/-- Bytes that there is place for are taken one after the other. -/
theorem collect_elementsOf (h : taken.length + bs.length ≤ n) :
    collect n taken (elementsOf bs ++ rest) = collect n (taken ++ bs) rest := by
  induction bs generalizing taken with
  | nil => rw [List.append_nil]; rfl
  | cons b bs ih =>
    rw [List.length_cons] at h
    have hstep : collect n taken (elementsOf (b :: bs) ++ rest) =
        collect n (taken ++ [b]) (elementsOf bs ++ rest) := if_neg (by omega)
    rw [hstep, ih (by rw [List.length_append, List.length_singleton]; omega), List.append_assoc]
    rfl

theorem ofElements_elementsOf (h : bs.length ≤ n) :
    ofElements n (elementsOf bs) = ofBytes n (.sequence n) bs := by
  have hcollect : collect n [] (elementsOf bs ++ []) = collect n ([] ++ bs) [] :=
    collect_elementsOf (by simpa using h)
  rw [List.append_nil, List.nil_append] at hcollect
  rw [ofElements, hcollect]
  rfl

/-- A fault counts if there would be a place for the element, and right behind. -/
theorem ofElements_of_fault (h : bs.length ≤ n) :
    ofElements n (elementsOf bs ++ .error e :: rest) = .error e := by
  rw [ofElements, collect_elementsOf (by simpa using h)]
  rfl

theorem ofElements_of_long (h : n < bs.length) :
    ofElements n (elementsOf bs ++ rest) = .error (.wrongLength (n + 1) (.sequence n)) := by
  obtain ⟨first, b, more, rfl, hfirst⟩ : ∃ first b more, bs = first ++ b :: more ∧
      first.length = n := by
    refine ⟨bs.take n, bs[n], bs.drop (n + 1), ?_, List.length_take_of_le (by omega)⟩
    rw [List.getElem_cons_drop, List.take_append_drop]
  have hsplit : elementsOf (first ++ b :: more) ++ rest =
      elementsOf first ++ .ok b :: (elementsOf more ++ rest) := by
    simp [elementsOf]
  have hfull : collect n first (.ok b :: (elementsOf more ++ rest)) =
      .error (.wrongLength (first.length + 1) (.sequence n)) := if_pos (by omega)
  rw [hsplit, ofElements, collect_elementsOf (by simp; omega), List.nil_append, hfull, hfirst]
  rfl

/-- **A sequence is an array** if its elements are as many bytes, and no sequence else. -/
theorem ofElements_eq_ok : ofElements n elements = .ok a ↔ elements = elementsOf a.toBytes := by
  constructor
  · intro h
    rcases eq_elementsOf_or elements with ⟨bs, rfl⟩ | ⟨bs, e, rest, rfl⟩
    · by_cases hlen : bs.length ≤ n
      · rw [ofElements_elementsOf hlen, ofBytes_eq_ok] at h
        rw [h]
      · rw [← List.append_nil (elementsOf bs), ofElements_of_long (by omega)] at h
        cases h
    · by_cases hlen : bs.length ≤ n
      · rw [ofElements_of_fault hlen] at h
        cases h
      · rw [ofElements_of_long (by omega)] at h
        cases h
  · rintro rfl
    rw [ofElements_elementsOf a.length_toBytes.le, ofBytes_eq_ok]

theorem exists_ofElements : (∃ a, ofElements n elements = .ok a) ↔
    elements.length = n ∧ ∀ x ∈ elements, ∃ b, x = .ok b := by
  constructor
  · rintro ⟨a, ha⟩
    rw [ofElements_eq_ok.1 ha, length_elementsOf, a.length_toBytes]
    exact ⟨rfl, fun x hx => (List.mem_map.1 hx).imp fun b hb => hb.2.symm⟩
  · rintro ⟨hlen, hbytes⟩
    rcases eq_elementsOf_or elements with ⟨bs, rfl⟩ | ⟨bs, e, rest, rfl⟩
    · rw [length_elementsOf] at hlen
      obtain ⟨a, rfl⟩ := FixedBytes.exists_toBytes hlen
      exact ⟨a, ofElements_eq_ok.2 rfl⟩
    · obtain ⟨b, ⟨⟩⟩ := hbytes (.error e) (List.mem_append_right _ List.mem_cons_self)

/-- The first fault, at a place of the array or right behind. -/
theorem ofElements_of_first {i : Nat} (hi : elements[i]? = some (.error e))
    (hfirst : ∀ j < i, ∀ e', elements[j]? ≠ some (.error e')) (hplace : i ≤ n) :
    ofElements n elements = .error e := by
  rcases eq_elementsOf_or elements with ⟨bs, rfl⟩ | ⟨bs, e', rest, rfl⟩
  · exact absurd hi (getElem?_elementsOf_ne bs i e)
  · have hat := getElem?_fault bs e' rest
    have hle : i ≤ bs.length := Nat.le_of_not_lt fun hlt => hfirst bs.length hlt e' hat
    have heq : i = bs.length := by
      refine Nat.le_antisymm hle (Nat.le_of_not_lt fun hlt => ?_)
      rw [List.getElem?_append_left (by rwa [length_elementsOf])] at hi
      exact getElem?_elementsOf_ne bs i e hi
    rw [heq, hat] at hi
    cases hi
    exact ofElements_of_fault (heq ▸ hplace)

/-- Without such a fault only the number of elements can be wrong, and reading stops behind
the first one too many. -/
theorem ofElements_of_count (hfault : ∀ (i : Nat) (e : DecodeError),
    elements[i]? = some (.error e) → n < i) (hfail : ∀ a, ofElements n elements ≠ .ok a) :
    ofElements n elements = .error (.wrongLength (min elements.length (n + 1)) (.sequence n)) := by
  rcases eq_elementsOf_or elements with ⟨bs, rfl⟩ | ⟨bs, e, rest, rfl⟩
  · have hlen : bs.length ≠ n := by
      intro hlen
      obtain ⟨a, rfl⟩ := FixedBytes.exists_toBytes hlen
      exact hfail a (ofElements_eq_ok.2 rfl)
    rw [length_elementsOf]
    by_cases hlong : n < bs.length
    · rw [← List.append_nil (elementsOf bs), ofElements_of_long hlong, Nat.min_eq_right hlong]
    · rw [ofElements_elementsOf (by omega), ofBytes_of_ne hlen, Nat.min_eq_left (by omega)]
  · have hlong : n < bs.length := hfault bs.length e (getElem?_fault bs e rest)
    rw [ofElements_of_long hlong, Nat.min_eq_right (by simp; omega)]

/-! ## Both forms -/

theorem byteOf_numeralOf (b : UInt8) : byteOf (.number (Json.numeralOf b.toNat)) = .ok b := by
  have hb := b.toNat_lt
  have hmax : b.toNat ≤ Json.maxUnsigned := by
    unfold Json.maxUnsigned
    omega
  have hfound : found (.number (Json.numeralOf b.toNat)) = .ok (.integer b.toNat) := by
    rw [found, Json.value_numeralOf hmax]
  have hrange : (0 : Int) ≤ b.toNat ∧ (b.toNat : Int) < 256 := by omega
  rw [byteOf, hfound, except_ok_bind]
  simp only [if_pos hrange, Int.toNat_natCast, UInt8.ofNat_toNat]
  rfl

theorem ofJson_sequence (a : FixedBytes n) (m : Nat) :
    ofJson m .sequence (serialize a .sequence) = ofElements m (elementsOf a.toBytes) := by
  have hparse := Json.parse_numbers (a.toBytes.map UInt8.toNat)
  simp only [List.map_map] at hparse
  have hitems : ((a.toBytes.map fun b => .number (Json.numeralOf b.toNat)).map byteOf) =
      elementsOf a.toBytes := by
    rw [List.map_map]
    exact List.map_congr_left fun b _ => byteOf_numeralOf b
  have hserialize : serialize a .sequence =
      "[" ++ ",".intercalate (a.toBytes.map (toString ∘ UInt8.toNat)) ++ "]" := rfl
  rw [ofJson, hserialize, hparse]
  exact congrArg (ofElements m) hitems

theorem ofJson_base64 (a : FixedBytes n) (m : Nat) :
    ofJson m .base64 (serialize a .base64) = ofBytes m (.base64 m) a.toBytes := by
  have hparse := Json.parse_plain (plain_encode a.toBytes)
  have hserialize : serialize a .base64 =
      "\"" ++ String.ofList ((Base64.encode a.toBytes).map charOf) ++ "\"" := rfl
  have hbytes := bytesOfPieces_charOf (ascii_encode a.toBytes)
  have htext := (textOfPieces_eq_ok (ascii_encode a.toBytes)).2
    ⟨(pieces_charOf (Base64.encode a.toBytes)).1, hbytes⟩
  rw [ofJson, hserialize, hparse]
  simp only [ofValue, htext, hbytes, ofBase64, Base64.decode_eq_ok.2 rfl]

/-- **Serialized arrays are read back, and nothing else is read.** Both forms of an array
give that array again, and fail for an array of another length. A base64 text is read as an
array if it is the text of the array's bytes. A byte string and a sequence are read as an
array if they are just its bytes. A sequence that is not read fails with its first fault if
there is a place for that element or it comes right behind, and with the number of elements,
up to the first one too many, otherwise. -/
theorem forms_exact (n : Nat) :
    (∀ a : FixedBytes n,
      (∀ form, ofJson n form (serialize a form) = .ok a) ∧
      (∀ m, m ≠ n →
        ofJson m .sequence (serialize a .sequence) =
          .error (.wrongLength (min n (m + 1)) (.sequence m)) ∧
        ofJson m .base64 (serialize a .base64) = .error (.wrongLength n (.base64 m))) ∧
      (∀ text, ofBase64 n text = .ok a ↔ text = Base64.encode a.toBytes) ∧
      (∀ value, ofValue n .base64 value = .ok a ↔ ∃ pieces, value = .string pieces ∧
        textOfPieces pieces = .ok (asciiText (Base64.encode a.toBytes))) ∧
      (∀ bs, ofByteString n bs .sequence = .ok a ↔ bs = a.toBytes) ∧
      (∀ elements, ofElements n elements = .ok a ↔ elements = a.toBytes.map .ok) ∧
      ∀ bs : Bytes, ofElements n (bs.map .ok) = .ok a ↔ ofByteString n bs .sequence = .ok a) ∧
    (∀ bs, (∃ a, ofByteString n bs .sequence = .ok a) ↔ bs.length = n) ∧
    ∀ elements : List (Except DecodeError UInt8),
      ((∃ a, ofElements n elements = .ok a) ↔
        elements.length = n ∧ ∀ x ∈ elements, ∃ b, x = .ok b) ∧
      (∀ i e, elements[i]? = some (.error e) → (∀ j < i, ∀ e', elements[j]? ≠ some (.error e')) →
        i ≤ n → ofElements n elements = .error e) ∧
      ((∀ i e, elements[i]? = some (.error e) → n < i) → (∀ a, ofElements n elements ≠ .ok a) →
        ofElements n elements =
          .error (.wrongLength (min elements.length (n + 1)) (.sequence n))) := by
  refine ⟨fun a => ⟨fun form => ?_, fun m hm => ⟨?_, ?_⟩, fun text => ofBase64_eq_ok,
    fun value => ofValue_base64_eq_ok, fun bs => ofBytes_eq_ok, fun elements => ofElements_eq_ok,
    fun bs => ?_⟩, fun bs => ⟨?_, ?_⟩, fun elements => ⟨exists_ofElements,
    fun i e => ofElements_of_first, ofElements_of_count⟩⟩
  · cases form with
    | sequence => rw [ofJson_sequence, ofElements_eq_ok]
    | base64 => rw [ofJson_base64, ofBytes_eq_ok]
  · have hlen : (elementsOf a.toBytes).length = n := by
      rw [length_elementsOf, a.length_toBytes]
    rw [ofJson_sequence, ofElements_of_count, hlen]
    · intro i e hi
      exact absurd hi (getElem?_elementsOf_ne _ i e)
    · intro a' ha'
      exact hm ((exists_ofElements.1 ⟨a', ha'⟩).1.symm.trans hlen)
  · have hlen : a.toBytes.length ≠ m := by
      rw [a.length_toBytes]
      exact hm.symm
    rw [ofJson_base64, ofBytes_of_ne hlen, a.length_toBytes]
  · have hmap : bs.map .ok = elementsOf a.toBytes ↔ bs = a.toBytes :=
      (List.map_injective_iff.2 fun _ _ => Except.ok.inj).eq_iff
    rw [ofElements_eq_ok, hmap, ofByteString, ofBytes_eq_ok]
  · rintro ⟨a, ha⟩
    rw [ofBytes_eq_ok.1 ha, a.length_toBytes]
  · intro hlen
    obtain ⟨a, rfl⟩ := FixedBytes.exists_toBytes hlen
    exact ⟨a, ofBytes_eq_ok.2 rfl⟩

/-- Two bytes in both forms, and sequences with a fault at the place behind them and beyond. -/
theorem forms_exact_of_two_bytes :
    ofJson 2 .sequence "[1,255]" = .ok #v[1, 255] ∧
    ofJson 3 .base64 "\"Af8=\"" = .error (.wrongLength 2 (.base64 3)) ∧
    ofElements 2 [.ok 1, .ok 255, .error .numberTooLarge] = .error .numberTooLarge ∧
    ofElements 2 [.ok 1, .ok 255, .ok 0, .error .numberTooLarge] =
      .error (.wrongLength 3 (.sequence 2)) := by
  obtain ⟨hforms, -, helements⟩ := forms_exact 2
  obtain ⟨hback, hother, -⟩ := hforms #v[1, 255]
  obtain ⟨-, hfirst, -⟩ := helements [.ok 1, .ok 255, .error .numberTooLarge]
  obtain ⟨hread, -, hcount⟩ := helements [.ok 1, .ok 255, .ok 0, .error .numberTooLarge]
  have hsequence : serialize (#v[1, 255] : FixedBytes 2) .sequence = "[1,255]" := by decide +kernel
  have hbase64 : serialize (#v[1, 255] : FixedBytes 2) .base64 = "\"Af8=\"" := by decide +kernel
  refine ⟨hsequence ▸ hback .sequence, hbase64 ▸ (hother 3 (by decide)).2,
    hfirst 2 .numberTooLarge rfl ?_ (by decide), hcount ?_ ?_⟩
  · intro j hj e'
    interval_cases j <;> simp
  · intro i e hi
    by_contra hle
    interval_cases i <;> simp at hi
  · intro a ha
    exact absurd (hread.1 ⟨a, ha⟩).1 (by decide)

end StreamDigest.Serial
