import UcxClient.Text.Numerals
import UcxClient.Text.Send

/-!
# The text of the arguments

`Arg.token` is the text that `uCxAtClientSendCmdVaList` writes for an argument. But for a binary transfer
there always is one (`argText_eq`), and the parameters are these texts with commas between
(`sendCmd_eq`).
-/

open SendCmd

namespace Arg

/-- The text of an argument. -/
def token (a : Arg) : List UInt8 := (argText a).getD []

/-- The argument of a binary transfer. -/
def isBinary : Arg → Bool
  | .binary _ => true
  | _ => false

/-- The string of a string argument. -/
def string? : Arg → Option (List UInt8)
  | .str s => some s.chars
  | .binStr s => some s
  | _ => none

end Arg

/-! ## The texts -/

theorem intListText_cons (c : UInt8) (v : Int16) (vs : List Int16) :
    intListText c (v :: vs) =
      c :: (formatInt v.toInt ++ vs.flatMap fun v => ch ',' :: formatInt v.toInt) ++ [ch ']'] := by
  induction vs generalizing c v with
  | nil => simp [intListText]
  | cons w vs ih =>
    rw [intListText, ih, List.flatMap_cons]
    simp

theorem hexLoop_eq {n : Nat} (pData : List UInt8) (h : pData.length ≤ n) :
    hexLoop n pData = some (pData.flatMap uCxAtUtilByteToHex) := by
  induction n generalizing pData with
  | zero =>
    obtain rfl := List.length_eq_zero_iff.1 (Nat.le_zero.1 h)
    rfl
  | succ n ih =>
    rw [hexLoop]
    split
    · next hnil =>
      rw [hnil]
      rfl
    · next hne =>
      have hpos := List.length_pos_iff.2 hne
      have hfit : ¬bufSize < 2 * (pData.take ((bufSize - 1) / 2)).length + 1 := by
        simp only [bufSize, ipStringMaxLengthBytes, List.length_take]
        omega
      have hrest := ih (pData.drop ((bufSize - 1) / 2)) (by
        simp only [bufSize, ipStringMaxLengthBytes, List.length_drop]
        omega)
      simp only [uCxAtUtilBinaryToHex, binaryToHex, if_neg hfit, hrest, Bool.false_eq_true, if_false]
      have hsplit := List.take_append_drop ((bufSize - 1) / 2) pData
      exact congrArg some (by rw [← List.flatMap_append, hsplit])

theorem length_formatUnsigned {n k : Nat} (hk : 0 < k) (h : n < 10 ^ k) : (formatUnsigned n).length ≤ k := by
  rw [formatUnsigned, List.length_map]
  exact (Nat.length_toDigits_le_iff (by decide) hk).2 h

/-- An IPv4 address fits in the buffer. -/
theorem ipv4ToString_eq (ipv4 : UInt32) : uCxIpAddressToString (.v4 ipv4) bufSize =
    some (formatUnsigned (ipv4.toNat / 2 ^ 24 % 256) ++ ch '.' ::
      formatUnsigned (ipv4.toNat / 2 ^ 16 % 256) ++ ch '.' ::
      formatUnsigned (ipv4.toNat / 2 ^ 8 % 256) ++ ch '.' :: formatUnsigned (ipv4.toNat % 256)) := by
  have h1 := length_formatUnsigned (n := ipv4.toNat / 2 ^ 24 % 256) (k := 3) (by decide) (by omega)
  have h2 := length_formatUnsigned (n := ipv4.toNat / 2 ^ 16 % 256) (k := 3) (by decide) (by omega)
  have h3 := length_formatUnsigned (n := ipv4.toNat / 2 ^ 8 % 256) (k := 3) (by decide) (by omega)
  have h4 := length_formatUnsigned (n := ipv4.toNat % 256) (k := 3) (by decide) (by omega)
  simp only [uCxIpAddressToString]
  rw [if_neg]
  simp only [bufSize, ipStringMaxLengthBytes, List.length_append, List.length_cons]
  omega

theorem binaryToHex_eq (bs : Vector UInt8 6) :
    uCxAtUtilBinaryToHex bs.toList bufSize = some (bs.toList.flatMap uCxAtUtilByteToHex) := by
  rw [uCxAtUtilBinaryToHex, binaryToHex, if_neg (by simp [bufSize, ipStringMaxLengthBytes])]
  rfl

/-- Every argument but that of a binary transfer has a text. -/
theorem argText_eq {a : Arg} (h : a.isBinary = false) : argText a = some a.token := by
  have hsome : (argText a).isSome = true := by
    cases a with
    | int | intList | str | binStr => rfl
    | ipAddress ip =>
      cases ip with
      | v4 ipv4 => rw [argText, ipv4ToString_eq]; rfl
      | v6 w0 w1 w2 w3 => rfl
    | macAddress mac => rw [argText, uCxMacAddressToString, binaryToHex_eq]; rfl
    | btLeAddress bd => rw [argText, uCxBdAddressToString, binaryToHex_eq]; rfl
    | binary => cases h
    | bytes pData => rw [argText, hexLoop_eq pData (Nat.le_refl _)]; rfl
  obtain ⟨t, ht⟩ := Option.isSome_iff_exists.1 hsome
  rw [Arg.token, ht]
  rfl

/-! ## The parameters -/

/-- Texts with commas between. -/
def commaSeparated : List (List UInt8) → List UInt8
  | [] => []
  | t :: ts => t ++ ts.flatMap (ch ',' :: ·)

theorem mem_commaSeparated {ts : List (List UInt8)} {c : UInt8} (h : c ∈ commaSeparated ts) :
    c = ch ',' ∨ ∃ t ∈ ts, c ∈ t := by
  cases ts with
  | nil => cases h
  | cons t ts =>
    rcases List.mem_append.1 h with h | h
    · exact .inr ⟨t, List.mem_cons_self, h⟩
    · obtain ⟨t', ht', h⟩ := List.mem_flatMap.1 h
      exact (List.mem_cons.1 h).imp_right fun h => ⟨t', List.mem_cons_of_mem _ ht', h⟩

theorem takesArg_fmt (a : Arg) : takesArg a.fmt = true := by
  cases a <;> rfl

theorem fmt_ne_B {a : Arg} (h : a.isBinary = false) : a.fmt ≠ ch 'B' := by
  cases a <;> simp_all [Arg.fmt, Arg.isBinary] <;> decide

theorem paramLoop_eq (first : Bool) {args : List Arg} (h : ∀ a ∈ args, a.isBinary = false) :
    paramLoop first (args.map Arg.fmt) args =
      some (if first then commaSeparated (args.map Arg.token)
        else (args.map Arg.token).flatMap (ch ',' :: ·), false) := by
  induction args generalizing first with
  | nil => cases first <;> rfl
  | cons a args ih =>
    have hb := h a List.mem_cons_self
    have hne := fmt_ne_B hb
    rw [List.map_cons, paramLoop, if_pos (takesArg_fmt a)]
    simp only [ne_eq, not_true_eq_false, if_false, argText_eq hb, hne,
      ih false fun b hb => h b (List.mem_cons_of_mem _ hb)]
    cases first <;> simp [commaSeparated, hne]

theorem sendCmd_eq (pCmd : List UInt8) {args : List Arg} (h : ∀ a ∈ args, a.isBinary = false) :
    uCxAtClientSendCmdVaList pCmd (args.map Arg.fmt) args =
      some (pCmd ++ commaSeparated (args.map Arg.token) ++ [ch '\r']) := by
  rw [uCxAtClientSendCmdVaList, paramLoop_eq true h]
  rfl

/-! ## The characters of the texts -/

section
variable {a : Arg}

theorem token_string {s : List UInt8} (h : a.string? = some s) : a.token = stringText s := by
  cases a <;> cases h <;> rfl

theorem token_bytes (pData : List UInt8) :
    (Arg.bytes pData).token = pData.flatMap uCxAtUtilByteToHex := by
  rw [Arg.token, argText, hexLoop_eq pData (Nat.le_refl _)]
  rfl

theorem token_macAddress (mac : MacAddress) :
    (Arg.macAddress mac).token = mac.address.toList.flatMap uCxAtUtilByteToHex := by
  rw [Arg.token, argText, uCxMacAddressToString, binaryToHex_eq]
  rfl

theorem token_btLeAddress (bd : BtLeAddress) : (Arg.btLeAddress bd).token =
    bd.address.toList.flatMap uCxAtUtilByteToHex ++
      [if bd.type = .typeRandom then ch 'r' else ch 'p'] := by
  rw [Arg.token, argText, uCxBdAddressToString, binaryToHex_eq]
  rfl

theorem token_ipv4 (ipv4 : UInt32) : (Arg.ipAddress (.v4 ipv4)).token =
    formatUnsigned (ipv4.toNat / 2 ^ 24 % 256) ++ ch '.' ::
      formatUnsigned (ipv4.toNat / 2 ^ 16 % 256) ++ ch '.' ::
      formatUnsigned (ipv4.toNat / 2 ^ 8 % 256) ++ ch '.' :: formatUnsigned (ipv4.toNat % 256) := by
  rw [Arg.token, argText, ipv4ToString_eq]
  rfl

theorem token_ipv6 (w0 w1 w2 w3 : UInt32) : (Arg.ipAddress (.v6 w0 w1 w2 w3)).token =
    ch '[' :: (formatIpv6Word w3 ++ ch ':' :: formatIpv6Word w2 ++ ch ':' :: formatIpv6Word w1 ++
      ch ':' :: formatIpv6Word w0) ++ [ch ']'] := rfl

theorem isNumeral_formatIpv6Word (w : UInt32) : ∀ c ∈ formatIpv6Word w, isNumeral c = true := by
  intro c hc
  rcases List.mem_append.1 hc with hc | hc
  · exact isNumeral_formatHex4 _ c hc
  · rcases List.mem_cons.1 hc with rfl | hc
    · rfl
    · exact isNumeral_formatHex4 _ c hc

/-- Numerals with characters of numerals between. -/
theorem isNumeral_append_cons {cs ds : List UInt8} {d : UInt8} (hc : ∀ c ∈ cs, isNumeral c = true)
    (hd : isNumeral d = true) (hds : ∀ c ∈ ds, isNumeral c = true) :
    ∀ c ∈ cs ++ d :: ds, isNumeral c = true := by
  intro c hmem
  rcases List.mem_append.1 hmem with h | h
  · exact hc c h
  · rcases List.mem_cons.1 h with rfl | h
    · exact hd
    · exact hds c h

/-- The text of an argument that is no string: characters of numerals, or such characters and commas
in brackets. -/
theorem token_shape (hb : a.isBinary = false) (hs : a.string? = none) :
    (∀ c ∈ a.token, isNumeral c = true) ∨
      ∃ body, a.token = ch '[' :: body ++ [ch ']'] ∧ ∀ c ∈ body, isNumeral c = true ∨ c = ch ',' := by
  cases a with
  | int i => exact .inl (isNumeral_formatInt _)
  | intList vs =>
    cases vs with
    | nil => exact .inr ⟨[], rfl, nofun⟩
    | cons v vs =>
      refine .inr ⟨_, intListText_cons (ch '[') v vs, fun c hc => ?_⟩
      rcases List.mem_append.1 hc with hc | hc
      · exact .inl (isNumeral_formatInt _ c hc)
      · obtain ⟨w, -, hc⟩ := List.mem_flatMap.1 hc
        rcases List.mem_cons.1 hc with rfl | hc
        · exact .inr rfl
        · exact .inl (isNumeral_formatInt _ c hc)
  | str | binStr => cases hs
  | ipAddress ip =>
    cases ip with
    | v4 ipv4 =>
      rw [token_ipv4]
      exact .inl (isNumeral_append_cons (isNumeral_append_cons (isNumeral_append_cons
        (isNumeral_formatUnsigned _) rfl (isNumeral_formatUnsigned _)) rfl
        (isNumeral_formatUnsigned _)) rfl (isNumeral_formatUnsigned _))
    | v6 w0 w1 w2 w3 =>
      refine .inr ⟨_, token_ipv6 w0 w1 w2 w3, fun c hc => .inl ?_⟩
      exact isNumeral_append_cons (isNumeral_append_cons (isNumeral_append_cons
        (isNumeral_formatIpv6Word w3) rfl (isNumeral_formatIpv6Word w2)) rfl
        (isNumeral_formatIpv6Word w1)) rfl (isNumeral_formatIpv6Word w0) c hc
  | macAddress mac =>
    rw [token_macAddress]
    exact .inl (isNumeral_byteToHex _)
  | btLeAddress bd =>
    rw [token_btLeAddress]
    refine .inl (isNumeral_append_cons (isNumeral_byteToHex _) ?_ nofun)
    split <;> rfl
  | binary => cases hb
  | bytes pData =>
    rw [token_bytes]
    exact .inl (isNumeral_byteToHex _)

/-- Such a text is printable. -/
theorem token_isprint (hb : a.isBinary = false) (hs : a.string? = none) :
    ∀ c ∈ a.token, isprint c = true := by
  rcases token_shape hb hs with h | ⟨body, heq, h⟩
  · exact fun c hc => (isNumeral_facts c (h c hc)).2.1
  · intro c hc
    rw [heq] at hc
    simp only [List.cons_append, List.mem_cons, List.mem_append, List.not_mem_nil, or_false] at hc
    rcases hc with rfl | hc | rfl
    · rfl
    · rcases h c hc with hn | rfl
      · exact (isNumeral_facts c hn).2.1
      · rfl
    · rfl

/-- It is one token. -/
theorem token_closed (hb : a.isBinary = false) (hs : a.string? = none) : Closed a.token := by
  rcases token_shape hb hs with h | ⟨body, heq, h⟩
  · exact Closed.plain fun c hc => (isNumeral_facts c (h c hc)).1
  · rw [heq]
    exact Closed.brackets fun c hc => (h c hc).imp_left fun hn => (isNumeral_facts c hn).1

end

/-- The text of a string: its escaped form if that fits, else the string as it is. -/
theorem stringText_eq (s : List UInt8) : stringText s =
    if (escapedForm s).length < bufSize then escapedForm s else ch '"' :: s ++ [ch '"'] := by
  rw [stringText, writeEscString_eq s (by decide)]
  by_cases h : (escapedForm s).length < bufSize
  · rw [if_pos h, if_pos h]
  · rw [if_neg h, if_neg h]
