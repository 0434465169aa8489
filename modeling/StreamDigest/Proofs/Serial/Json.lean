import Mathlib.Data.List.Basic
import StreamDigest.Json.Number
import StreamDigest.Json.Reader

/-!
# Reading back JSON

Numbers in decimal notation, lists of them and quoted strings of plain characters are read
back as they were written, whatever follows. A number that 64 bits hold stands for itself
again.
-/

namespace StreamDigest.Json

variable {n : Nat} {rest : List Char}

/-! ## Numbers -/

/-- The digits of a number, the first one not zero but for zero itself. -/
def digitsOf (n : Nat) : List Nat := (Nat.toDigits 10 n).map fun c => c.toNat - 48

/-- A number as it is written. -/
def numeralOf (n : Nat) : Numeral := ⟨false, digitsOf n, none, none⟩

/-- What comes next does not go on with a number. -/
def Ends (rest : List Char) : Prop :=
  ∀ c ∈ rest.head?, c.isDigit = false ∧ c ≠ '.' ∧ c ≠ 'e' ∧ c ≠ 'E'

theorem exists_toDigits (n : Nat) :
    ∃ c cs, Nat.toDigits 10 n = c :: cs ∧ c.isDigit = true := by
  cases hdigits : Nat.toDigits 10 n with
  | nil => exact absurd hdigits Nat.toDigits_ne_nil
  | cons c cs =>
    exact ⟨c, cs, rfl, Nat.isDigit_of_mem_toDigits (by decide) (by decide)
      (hdigits ▸ List.mem_cons_self)⟩

theorem readDigits_toDigits (h : Ends rest) :
    readDigits (Nat.toDigits 10 n ++ rest) = (digitsOf n, rest) := by
  have hdigits : ∀ c ∈ Nat.toDigits 10 n, c.isDigit = true := fun c hc =>
    Nat.isDigit_of_mem_toDigits (by decide) (by decide) hc
  have hrest : rest.takeWhile Char.isDigit = [] ∧ rest.dropWhile Char.isDigit = rest := by
    cases rest with
    | nil => exact ⟨rfl, rfl⟩
    | cons c cs =>
      have hc := (h c rfl).1
      exact ⟨by rw [List.takeWhile_cons, hc]; rfl, by rw [List.dropWhile_cons, hc]; rfl⟩
  rw [readDigits, List.takeWhile_append_of_pos hdigits, List.dropWhile_append_of_pos hdigits,
    hrest.1, hrest.2, List.append_nil, digitsOf]

/-- A number with more than one digit starts as its tenth does, so not with a zero. -/
theorem head?_toDigits (h : 0 < n) : (Nat.toDigits 10 n).head? ≠ some '0' := by
  have hdigit : ∀ d : Fin 10, 0 < d.val → d.val.digitChar ≠ '0' := by decide
  induction n using Nat.strongRecOn with
  | ind n ih =>
    rw [Nat.toDigits_eq_if (by decide)]
    split_ifs with hn
    · exact fun hzero => hdigit ⟨n, hn⟩ h (Option.some.inj hzero)
    · have htenth := ih (n / 10) (by omega) (by omega)
      obtain ⟨c, cs, hdigits, -⟩ := exists_toDigits (n / 10)
      rw [hdigits] at htenth ⊢
      exact htenth

theorem length_digitsOf_of_zero (h : (digitsOf n).head? = some 0) : (digitsOf n).length = 1 := by
  obtain ⟨c, cs, hdigits, hc⟩ := exists_toDigits n
  rcases Nat.eq_zero_or_pos n with rfl | hn
  · rfl
  · refine absurd ?_ (head?_toDigits hn)
    have hlow : '0'.toNat ≤ c.toNat := (Char.isDigit_iff_toNat.1 hc).1
    have hzero : c.toNat - '0'.toNat = 0 := by
      rw [digitsOf, hdigits] at h
      exact Option.some.inj h
    rw [hdigits, List.head?_cons, Char.toNat_inj.1 (show c.toNat = '0'.toNat by omega)]

theorem le_foldl_digits (n : Nat) (ds : List Nat) : n ≤ ds.foldl (fun n d => n * 10 + d) n := by
  induction ds generalizing n with
  | nil => exact Nat.le_refl n
  | cons d ds ih =>
    have hstep := ih (n * 10 + d)
    rw [List.foldl_cons]
    omega

theorem accumulate_of_le {ds : List Nat} (h : ds.foldl (fun n d => n * 10 + d) n ≤ maxUnsigned) :
    accumulate n ds = (ds.foldl (fun n d => n * 10 + d) n, []) := by
  induction ds generalizing n with
  | nil => rfl
  | cons d ds ih =>
    rw [List.foldl_cons] at h
    have hd := Nat.le_trans (le_foldl_digits (n * 10 + d) ds) h
    rw [accumulate, if_pos hd, ih h, List.foldl_cons]

theorem foldl_digitsOf (n : Nat) : (digitsOf n).foldl (fun n d => n * 10 + d) 0 = n := by
  have hback := Nat.ofDigitChars_toDigits (b := 10) (n := n) (by decide) (by decide)
  have hzero : '0'.toNat = 48 := rfl
  rw [Nat.ofDigitChars] at hback
  rw [digitsOf, List.foldl_map]
  simpa only [Nat.mul_comm, hzero] using hback

theorem value_numeralOf (h : n ≤ maxUnsigned) : (numeralOf n).value = some (.integer n) := by
  have haccumulate : accumulate 0 (digitsOf n) = (n, []) := by
    rw [accumulate_of_le (by rwa [foldl_digitsOf]), foldl_digitsOf]
  have hinteger : (numeralOf n).integer? = some (n : Int) := by
    simp [Numeral.integer?, numeralOf, haccumulate]
  rw [Numeral.value, hinteger]

theorem readFraction_of_ends (h : Ends rest) : readFraction rest = some (none, rest) := by
  unfold readFraction
  split
  · exact absurd rfl (h _ rfl).2.1
  · rfl

theorem readExponent_of_ends (h : Ends rest) : readExponent rest = some (none, rest) := by
  unfold readExponent
  split
  · rfl
  · obtain ⟨-, -, hlower, hupper⟩ := h _ rfl
    rw [if_neg (by simp [hlower, hupper])]

theorem readNumeral_toDigits (h : Ends rest) :
    readNumeral false (Nat.toDigits 10 n ++ rest) = some (numeralOf n, rest) := by
  have hfirst : ¬(digitsOf n = [] ∨ (digitsOf n).head? = some 0 ∧ (digitsOf n).length ≠ 1) := by
    rintro (hnil | ⟨hzero, hlen⟩)
    · exact Nat.toDigits_ne_nil (List.map_eq_nil_iff.1 hnil)
    · exact hlen (length_digitsOf_of_zero hzero)
  unfold readNumeral
  simp only [readDigits_toDigits h, if_neg hfirst, readFraction_of_ends h,
    readExponent_of_ends h, Option.bind_eq_bind, Option.bind_some]
  rfl

/-! ## Values -/

theorem skipBlanks_of_digit {c : Char} {cs : List Char} (h : c.isDigit = true) :
    skipBlanks (c :: cs) = c :: cs := by
  have hblank : isBlank c = false := by
    simp only [isBlank, Bool.or_eq_false_iff, decide_eq_false_iff_not]
    refine ⟨⟨⟨?_, ?_⟩, ?_⟩, ?_⟩ <;> rintro rfl <;> exact absurd h (by decide)
  rw [skipBlanks, List.dropWhile_cons, hblank]
  rfl

theorem readValue_toDigits (depth : Nat) (h : Ends rest) :
    readValue (depth + 1) (Nat.toDigits 10 n ++ rest) = some (.number (numeralOf n), rest) := by
  have hnumeral := readNumeral_toDigits (n := n) h
  obtain ⟨c, cs, hdigits, hc⟩ := exists_toDigits n
  rw [hdigits, List.cons_append] at hnumeral ⊢
  rw [readValue, skipBlanks_of_digit hc]
  split <;> rename_i heq
  case h_8 =>
    rw [hnumeral]
    rfl
  all_goals
    cases heq
    exact absurd hc (by decide)

/-- Numbers with commas between them, up to the closing bracket. -/
theorem readItems_toDigits {ns : List Nat} (hns : ns ≠ []) {depth : Nat}
    (hdepth : ns.length < depth) :
    readItems depth ([','].intercalate (ns.map (Nat.toDigits 10)) ++ ']' :: rest) =
      some (ns.map fun n => .number (numeralOf n), rest) := by
  have hcomma : ∀ cs : List Char, Ends (',' :: cs) := by
    rintro cs c ⟨⟩
    decide
  have hbracket : Ends (']' :: rest) := by
    rintro c ⟨⟩
    decide
  induction ns generalizing depth with
  | nil => exact absurd rfl hns
  | cons n ns ih =>
    obtain ⟨depth, rfl⟩ : ∃ d, depth = d + 2 := ⟨depth - 2, by
      rw [List.length_cons] at hdepth
      omega⟩
    cases ns with
    | nil =>
      rw [List.map_cons, List.map_nil, List.intercalate_singleton, readItems,
        readValue_toDigits depth hbracket]
      rfl
    | cons m ns =>
      have hrest := ih (List.cons_ne_nil m ns) (Nat.lt_of_succ_lt_succ hdepth)
      rw [List.map_cons] at hrest
      rw [List.map_cons, List.map_cons, List.intercalate_cons_cons, List.append_assoc,
        List.append_assoc, readItems, List.cons_append, readValue_toDigits depth (hcomma _)]
      have hskip : ∀ cs, skipBlanks (',' :: cs) = ',' :: cs := fun _ => rfl
      simp only [Option.bind_eq_bind, Option.bind_some, hskip, List.nil_append, hrest]
      rfl

/-- The character stands for itself between quotes. -/
def Plain (c : Char) : Prop := 32 ≤ c.toNat ∧ c ≠ '"' ∧ c ≠ '\\'

theorem readPieces_plain {cs : List Char} (h : ∀ c ∈ cs, Plain c) :
    readPieces (cs ++ '"' :: rest) = some (cs.map .char, rest) := by
  induction cs with
  | nil => rfl
  | cons c cs ih =>
    obtain ⟨⟨hc, hquote, hslash⟩, hcs⟩ := List.forall_mem_cons.1 h
    rw [List.cons_append]
    unfold readPieces
    split <;> rename_i heq
    case h_1 => exact absurd (List.cons.inj heq).1 hquote
    case h_2 => exact absurd (List.cons.inj heq).1 hslash
    case h_3 => exact absurd (List.cons.inj heq).1 hslash
    case h_4 =>
      cases heq
      rw [if_neg (Nat.not_lt.2 hc), ih hcs]
      rfl
    case h_5 => cases heq

/-! ## Texts -/

theorem exists_intercalate (n : Nat) (ns : List Nat) :
    ∃ c cs, [','].intercalate ((n :: ns).map (Nat.toDigits 10)) = c :: cs ∧
      c.isDigit = true := by
  obtain ⟨c, cs, hdigits, hc⟩ := exists_toDigits n
  cases ns with
  | nil =>
    rw [List.map_cons, List.map_nil, List.intercalate_singleton, hdigits]
    exact ⟨c, cs, rfl, hc⟩
  | cons m ns =>
    rw [List.map_cons, List.map_cons, List.intercalate_cons_cons, hdigits]
    exact ⟨c, _, rfl, hc⟩

theorem length_le_intercalate (ns : List Nat) :
    ns.length ≤ ([','].intercalate (ns.map (Nat.toDigits 10))).length := by
  induction ns with
  | nil => exact Nat.zero_le _
  | cons n ns ih =>
    obtain ⟨c, cs, hdigits, -⟩ := exists_toDigits n
    cases ns with
    | nil => simp [hdigits]
    | cons m ns =>
      rw [List.map_cons] at ih
      rw [List.map_cons, List.map_cons, List.intercalate_cons_cons, hdigits]
      simp only [List.length_append, List.length_cons] at ih ⊢
      omega

theorem readValue_bracket {items : List Value} {depth : Nat} {c : Char} {cs : List Char}
    (hc : c.isDigit = true) (h : readItems depth (c :: cs) = some (items, rest)) :
    readValue (depth + 1) ('[' :: c :: cs) = some (.array items, rest) := by
  have hopen : skipBlanks ('[' :: c :: cs) = '[' :: c :: cs := rfl
  rw [readValue, hopen]
  split <;> rename_i heq
  case h_2 =>
    cases heq
    rw [skipBlanks_of_digit hc]
    split
    · rename_i hclose
      cases hclose
      exact absurd hc (by decide)
    · rw [h]
      rfl
  case h_8 _ _ hbracket _ _ _ _ => exact (hbracket _ rfl).elim
  all_goals cases heq

theorem readValue_numbers (ns : List Nat) {depth : Nat} (hdepth : ns.length < depth) :
    readValue (depth + 1) ('[' :: ([','].intercalate (ns.map (Nat.toDigits 10)) ++ [']'])) =
      some (.array (ns.map fun n => .number (numeralOf n)), []) := by
  cases ns with
  | nil => rfl
  | cons n ns =>
    have hitems : readItems depth
        ([','].intercalate ((n :: ns).map (Nat.toDigits 10)) ++ [']']) =
        some ((n :: ns).map fun n => .number (numeralOf n), []) :=
      readItems_toDigits (List.cons_ne_nil n ns) hdepth
    obtain ⟨c, cs, hcs, hc⟩ := exists_intercalate n ns
    rw [hcs, List.cons_append] at hitems ⊢
    exact readValue_bracket hc hitems

theorem readValue_plain {cs : List Char} (h : ∀ c ∈ cs, Plain c) (depth : Nat) :
    readValue (depth + 1) ('"' :: (cs ++ ['"'])) = some (.string (cs.map .char), []) := by
  have hopen : skipBlanks ('"' :: (cs ++ ['"'])) = '"' :: (cs ++ ['"']) := rfl
  rw [readValue, hopen]
  split <;> rename_i heq
  case h_1 =>
    cases heq
    rw [readPieces_plain h]
    rfl
  case h_8 _ hquote _ _ _ _ _ => exact (hquote _ rfl).elim
  all_goals cases heq

theorem parse_of_readValue (cs : List Char) {text : String} {value : Value}
    (htext : text.toList = cs) (h : readValue (cs.length + 1) cs = some (value, [])) :
    parse text = some value := by
  unfold parse
  simp only [htext, h, Option.bind_eq_bind, Option.bind_some]
  rfl

/-- A list of numbers is read back. -/
theorem parse_numbers (ns : List Nat) :
    parse ("[" ++ ",".intercalate (ns.map toString) ++ "]") =
      some (.array (ns.map fun n => .number (numeralOf n))) := by
  have hdigits : (ns.map toString).map String.toList = ns.map (Nat.toDigits 10) := by
    rw [List.map_map]
    exact List.map_congr_left fun n _ => Nat.toList_repr
  have hdepth := length_le_intercalate ns
  refine parse_of_readValue ('[' :: ([','].intercalate (ns.map (Nat.toDigits 10)) ++ [']'])) ?_
    (readValue_numbers ns ?_)
  · simp only [String.toList_append, String.toList_intercalate, hdigits]
    rfl
  · rw [List.length_cons, List.length_append]
    omega

/-- A quoted string of plain characters is read back. -/
theorem parse_plain {cs : List Char} (h : ∀ c ∈ cs, Plain c) :
    parse ("\"" ++ String.ofList cs ++ "\"") = some (.string (cs.map .char)) := by
  refine parse_of_readValue ('"' :: (cs ++ ['"'])) ?_ (readValue_plain h _)
  simp only [String.toList_append, String.toList_ofList]
  rfl

end StreamDigest.Json
