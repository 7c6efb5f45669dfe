import UcxClient.Lib.Strtol
import UcxClient.Text.Params
import UcxClient.Text.Tokens

/-!
# Numerals and hexadecimal strings

What `snprintf` writes for a number is read back by `strtol` (`strtol_formatInt`, `strtol_formatHex4`),
and what `uCxAtUtilBinaryToHex` writes by `uCxAtUtilHexToBinary` (`hexToBinary_byteToHex`). The characters
of all of these are plain.
-/

open ByteMem

/-! ## Decimal numerals -/

theorem digit_char {d : Nat} (h : d < 10) :
    isdigit (ch d.digitChar) = true ∧ digitVal (ch d.digitChar) = d := by
  have hall : ∀ d < 10, isdigit (ch d.digitChar) = true ∧ digitVal (ch d.digitChar) = d := by
    decide
  exact hall d h

theorem formatUnsigned_of_lt {n : Nat} (h : n < 10) : formatUnsigned n = [ch n.digitChar] := by
  rw [formatUnsigned, Nat.toDigits_of_lt_base h]
  rfl

theorem formatUnsigned_of_le {n : Nat} (h : 10 ≤ n) :
    formatUnsigned n = formatUnsigned (n / 10) ++ [ch (n % 10).digitChar] := by
  rw [formatUnsigned, Nat.toDigits_of_base_le (by decide) h, List.map_append]
  rfl

theorem ofDigits_append (base acc : Nat) (ds es : List UInt8) :
    ofDigits base acc (ds ++ es) = ofDigits base (ofDigits base acc ds) es :=
  List.foldl_append ..

/-- The digits of a numeral and their value. -/
theorem formatUnsigned_spec (n : Nat) :
    (∀ c ∈ formatUnsigned n, isdigit c = true) ∧ formatUnsigned n ≠ [] ∧
      ofDigits 10 0 (formatUnsigned n) = n := by
  induction n using Nat.strongRecOn with
  | ind n ih =>
    by_cases h : n < 10
    · obtain ⟨h1, h2⟩ := digit_char h
      rw [formatUnsigned_of_lt h]
      refine ⟨by simpa using h1, by simp, ?_⟩
      simpa [ofDigits] using h2
    · obtain ⟨h1, h2⟩ := digit_char (d := n % 10) (by omega)
      obtain ⟨ih1, ih2, ih3⟩ := ih (n / 10) (by omega)
      rw [formatUnsigned_of_le (by omega)]
      refine ⟨fun c hc => ?_, by simp, ?_⟩
      · rcases List.mem_append.1 hc with hc | hc
        · exact ih1 c hc
        · rw [List.mem_singleton.1 hc]
          exact h1
      · rw [ofDigits_append, ih3]
        simp only [ofDigits, List.foldl_cons, List.foldl_nil, h2]
        omega

theorem formatUnsigned_cons (n : Nat) : ∃ c ds, formatUnsigned n = c :: ds := by
  have h := (formatUnsigned_spec n).2.1
  exact List.exists_cons_of_ne_nil h

theorem numeral_formatUnsigned (n : Nat) : Numeral 10 (formatUnsigned n) n := by
  obtain ⟨hdigits, hne, hvalue⟩ := formatUnsigned_spec n
  have hnum := numeral_of_digits hne fun c hc => digitVal_lt_ten (hdigits c hc)
  rwa [hvalue] at hnum

theorem numeral_formatInt (n : Int) : Numeral 10 (formatInt n) n := by
  unfold formatInt
  split
  · obtain ⟨hdigits, hne, hvalue⟩ := formatUnsigned_spec n.natAbs
    have hnum := numeral_of_minus hne fun c hc => digitVal_lt_ten (hdigits c hc)
    rwa [hvalue, show -(n.natAbs : Int) = n by omega] at hnum
  · have hnum := numeral_formatUnsigned n.natAbs
    rwa [show (n.natAbs : Int) = n by omega] at hnum

/-- **Integers.** -/
theorem strtol_formatInt {n : Int} (h1 : -(2 ^ 63) ≤ n) (h2 : n < 2 ^ 63) {rest : List UInt8}
    (hrest : ∀ c ∈ rest.head?, Stops c) : strtol 10 (formatInt n ++ rest) = (n, rest) := by
  have hclamp : clampLong n = n := clampLong_eq (by omega) (by omega)
  rw [(numeral_formatInt n).strtol_append (by decide) hrest, hclamp]

/-- An integer starts with a digit or a minus sign, and its characters are digits behind that. -/
theorem formatInt_chars (n : Int) : ∃ c ds, formatInt n = c :: ds ∧
    (c = ch '-' ∨ isdigit c = true) ∧ ∀ d ∈ ds, isdigit d = true := by
  obtain ⟨hd, -, -⟩ := formatUnsigned_spec n.natAbs
  obtain ⟨c, ds, hc⟩ := formatUnsigned_cons n.natAbs
  unfold formatInt
  split
  · exact ⟨_, _, rfl, .inl rfl, hd⟩
  · rw [hc] at hd
    exact ⟨c, ds, hc, .inr (hd c List.mem_cons_self), fun d h => hd d (List.mem_cons_of_mem _ h)⟩

/-- The characters of the parameters but for strings and brackets. -/
def isNumeral (c : UInt8) : Bool :=
  isdigit c || (ch 'a' ≤ c && c ≤ ch 'f') || (ch 'A' ≤ c && c ≤ ch 'F') || (text "-.:rp").contains c

theorem isNumeral_facts : ∀ c, isNumeral c = true →
    isPlain c = true ∧ isprint c = true ∧ c ≠ ch '"' ∧ c ≠ ch ',' := by
  apply forall_byte
  decide +kernel

theorem isNumeral_of_isdigit {c : UInt8} (h : isdigit c = true) : isNumeral c = true := by
  simp [isNumeral, h]

theorem isNumeral_formatUnsigned (n : Nat) : ∀ c ∈ formatUnsigned n, isNumeral c = true :=
  fun c hc => isNumeral_of_isdigit ((formatUnsigned_spec n).1 c hc)

theorem isNumeral_formatInt (n : Int) : ∀ c ∈ formatInt n, isNumeral c = true := by
  obtain ⟨c, ds, h, hc, hds⟩ := formatInt_chars n
  intro d hd
  rw [h] at hd
  rcases List.mem_cons.1 hd with rfl | hd
  · rcases hc with rfl | hc
    · rfl
    · exact isNumeral_of_isdigit hc
  · exact isNumeral_of_isdigit (hds d hd)

/-! ## Hexadecimal strings -/

theorem hexDigit_spec {d : Nat} (h : d < 16) :
    digitVal (hexDigit d) = d ∧ isNumeral (hexDigit d) = true ∧ isspace (hexDigit d) = false ∧
      hexDigit d ≠ ch '-' ∧ hexDigit d ≠ ch '+' ∧ hexDigit d ≠ ch 'x' ∧ hexDigit d ≠ ch 'X' := by
  have hall : ∀ d < 16, digitVal (hexDigit d) = d ∧ isNumeral (hexDigit d) = true ∧
      isspace (hexDigit d) = false ∧ hexDigit d ≠ ch '-' ∧ hexDigit d ≠ ch '+' ∧
      hexDigit d ≠ ch 'x' ∧ hexDigit d ≠ ch 'X' := by decide
  exact hall d h

theorem isNumeral_formatHex4 (n : Nat) : ∀ c ∈ formatHex4 n, isNumeral c = true := by
  intro c hc
  simp only [formatHex4, List.mem_cons, List.not_mem_nil, or_false] at hc
  rcases hc with rfl | rfl | rfl | rfl <;> exact (hexDigit_spec (by omega)).2.1

/-- **Groups of four hexadecimal digits.** -/
theorem strtol_formatHex4 {n : Nat} (hn : n < 65536) {rest : List UInt8}
    (hrest : ∀ c ∈ rest.head?, Stops c) : strtol 16 (formatHex4 n ++ rest) = ((n : Int), rest) := by
  have hlt : ∀ c ∈ formatHex4 n, digitVal c < 16 := by
    intro c hc
    simp only [formatHex4, List.mem_cons, List.not_mem_nil, or_false] at hc
    rcases hc with rfl | rfl | rfl | rfl <;> rw [(hexDigit_spec (by omega)).1] <;> omega
  have hvalue : ofDigits 16 0 (formatHex4 n) = n := by
    simp only [ofDigits, formatHex4, List.foldl_cons, List.foldl_nil]
    rw [(hexDigit_spec (d := n / 4096 % 16) (by omega)).1, (hexDigit_spec (d := n / 256 % 16) (by omega)).1,
      (hexDigit_spec (d := n / 16 % 16) (by omega)).1, (hexDigit_spec (d := n % 16) (by omega)).1]
    omega
  have hnum : Numeral 16 (formatHex4 n) (ofDigits 16 0 (formatHex4 n)) :=
    numeral_of_digits (List.cons_ne_nil _ _) hlt
  have hclamp : clampLong n = n := clampLong_eq (by omega) (by omega)
  rw [hvalue] at hnum
  rw [hnum.strtol_append (by decide) hrest, hclamp]

theorem byteToHex_spec (b : UInt8) : ∃ high low, uCxAtUtilByteToHex b = [high, low] ∧
    uCxAtUtilHexToByte high low = some b ∧ isNumeral high = true ∧ isNumeral low = true ∧
    isspace high = false := by
  have hall : ∀ b : UInt8, uCxAtUtilHexToByte (nibbleToHex (b >>> 4)) (nibbleToHex (b &&& 0x0F)) = some b ∧
      isNumeral (nibbleToHex (b >>> 4)) = true ∧ isNumeral (nibbleToHex (b &&& 0x0F)) = true ∧
      isspace (nibbleToHex (b >>> 4)) = false := by
    apply forall_byte
    decide +kernel
  exact ⟨_, _, rfl, hall b⟩

/-- **Bytes.** -/
theorem hexToBinary_byteToHex (bs rest : List UInt8) :
    uCxAtUtilHexToBinary (bs.flatMap uCxAtUtilByteToHex ++ rest) bs.length = bs := by
  induction bs with
  | nil =>
    rw [List.length_nil]
    unfold uCxAtUtilHexToBinary
    split <;> simp_all
  | cons b bs ih =>
    obtain ⟨high, low, hb, hv, -⟩ := byteToHex_spec b
    rw [List.flatMap_cons, hb, List.length_cons]
    simp only [List.cons_append, List.nil_append, uCxAtUtilHexToBinary, hv, ih]

theorem length_byteToHex (bs : List UInt8) :
    (bs.flatMap uCxAtUtilByteToHex).length = 2 * bs.length := by
  induction bs with
  | nil => rfl
  | cons b bs ih =>
    rw [List.flatMap_cons, List.length_append, ih, List.length_cons]
    simp only [uCxAtUtilByteToHex, List.length_cons, List.length_nil]
    omega

theorem isNumeral_byteToHex (bs : List UInt8) :
    ∀ c ∈ bs.flatMap uCxAtUtilByteToHex, isNumeral c = true := by
  intro c hc
  obtain ⟨b, -, hc⟩ := List.mem_flatMap.1 hc
  obtain ⟨high, low, hb, -, hh, hl, -⟩ := byteToHex_spec b
  rw [hb] at hc
  simp only [List.mem_cons, List.not_mem_nil, or_false] at hc
  rcases hc with rfl | rfl
  · exact hh
  · exact hl
