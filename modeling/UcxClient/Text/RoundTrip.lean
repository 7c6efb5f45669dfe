import UcxClient.Text.Args
import UcxClient.Text.Values

/-!
# Parsing undoes sending

`parse_send`: the parameters that `uCxAtClientSendCmdVaList` writes are parsed back by
`uCxAtUtilParseParamsVaList` with the same format.

For one argument this is `Decodes`: the case of its format character decodes its text in place, and what it
leaves there is enough to read the argument back, whatever becomes of the memory behind it
(`decodes_int` and so on). `loop_decodes` is the loop.
-/

open ByteMem

/-- The text of an argument is decoded in place. -/
def Decodes (a : Arg) : Prop :=
  ∀ pre post, ∃ t output, t.length = a.token.length ∧
    ParseParams.param a.fmt (pre ++ a.token ++ 0 :: post) pre.length (pre.length + a.token.length) =
      .done (pre ++ t ++ 0 :: post) (some output) ∧
    ∀ post', output.value (pre ++ t ++ 0 :: post') = a

/-! ## Integers and addresses -/

/-- An output that does not depend on the memory. -/
theorem Decodes.of_converted {a : Arg} {o : Output}
    (h : ∀ pre post, ParseParams.param a.fmt (pre ++ a.token ++ 0 :: post) pre.length
      (pre.length + a.token.length) =
        ParseParams.converted (pre ++ a.token ++ 0 :: post) (some o))
    (hv : ∀ m, o.value m = a) : Decodes a :=
  fun pre post => ⟨a.token, o, rfl, h pre post, fun _ => hv _⟩

theorem zero_notMem_token {a : Arg} (hb : a.isBinary = false) (hs : a.string? = none) :
    0 ∉ a.token := by
  intro h
  exact absurd (token_isprint hb hs 0 h) (by decide)

theorem decodes_int (i : Int32) : Decodes (.int i) := by
  have hr1 := i.le_toInt
  have hr2 := i.toInt_lt
  obtain ⟨c, ds, hcons, hc, -⟩ := formatInt_chars i.toInt
  have hstrtol : strtol 10 (formatInt i.toInt ++ []) = (i.toInt, []) :=
    strtol_formatInt (by omega) (by omega) nofun
  rw [List.append_nil] at hstrtol
  refine .of_converted (o := .int i) (fun pre post => ?_) fun m => rfl
  have hstr := cstr_mid (zero_notMem_token (a := .int i) rfl rfl) pre post
  have htok : (Arg.int i).token = formatInt i.toInt := rfl
  have hhead : (formatInt i.toInt).headD 0 = c := by
    rw [hcons]
    rfl
  have hok : ¬((c ≠ ch '-' ∧ (!isdigit c) = true) ∨ ([] : List UInt8) ≠ []) := by
    rintro (⟨hne, hnd⟩ | hne)
    · rcases hc with hc | hc
      · exact hne hc
      · simp [hc] at hnd
    · exact hne rfl
  rw [show (Arg.int i).fmt = ch 'd' from rfl, ParseParams.param_d, hstr, htok, hstrtol, hhead,
    if_neg hok, Int32.ofInt_toInt]

/-! ### IP addresses -/

theorem or_eq_add {a b k : Nat} (ha : 2 ^ k ∣ a) (hb : b < 2 ^ k) : a ||| b = a + b := by
  obtain ⟨q, rfl⟩ := ha
  exact (Nat.two_pow_add_eq_or_of_lt hb q).symm

theorem or_bytes {a b c d : Nat} (hb : b < 256) (hc : c < 256) (hd : d < 256) :
    a * 2 ^ 24 ||| b * 2 ^ 16 ||| c * 2 ^ 8 ||| d = a * 2 ^ 24 + b * 2 ^ 16 + c * 2 ^ 8 + d := by
  rw [or_eq_add (a := a * 2 ^ 24) (k := 24) (by omega) (by omega),
    or_eq_add (a := a * 2 ^ 24 + b * 2 ^ 16) (k := 16) (by omega) (by omega),
    or_eq_add (k := 8) (by omega) (by omega)]

theorem ipv4_bytes (ipv4 : UInt32) :
    UInt32.ofNat (ipv4.toNat / 2 ^ 24 % 256) <<< 24 ||| UInt32.ofNat (ipv4.toNat / 2 ^ 16 % 256) <<< 16
      ||| UInt32.ofNat (ipv4.toNat / 2 ^ 8 % 256) <<< 8 ||| UInt32.ofNat (ipv4.toNat % 256) = ipv4 := by
  have hlt := ipv4.toNat_lt
  have hshift : ∀ {n k : Nat}, n < 256 → k ≤ 24 → n % 2 ^ 32 * 2 ^ k % 2 ^ 32 = n * 2 ^ k := by
    intro n k hn hk
    have hk' : 2 ^ k ≤ 2 ^ 24 := Nat.pow_le_pow_right (by decide) hk
    have hmul : n * 2 ^ k ≤ 255 * 2 ^ 24 := Nat.mul_le_mul (by omega) hk'
    rw [Nat.mod_eq_of_lt (a := n) (by omega), Nat.mod_eq_of_lt (by omega)]
  apply UInt32.toNat_inj.1
  simp only [UInt32.toNat_or, UInt32.toNat_shiftLeft, UInt32.toNat_ofNat', UInt32.reduceToNat,
    Nat.reduceMod, Nat.shiftLeft_eq]
  rw [hshift (by omega) (by omega), hshift (by omega) (by omega), hshift (by omega) (by omega),
    Nat.mod_eq_of_lt (a := ipv4.toNat % 256) (by omega),
    or_bytes (by omega) (by omega) (by omega)]
  omega

theorem ipv6_groups (w : UInt32) :
    UInt32.ofNat (w.toNat / 65536) <<< 16 ||| UInt32.ofNat (w.toNat % 65536) = w := by
  have hw := w.toNat_lt
  apply UInt32.toNat_inj.1
  simp only [UInt32.toNat_or, UInt32.toNat_shiftLeft, UInt32.toNat_ofNat', UInt32.reduceToNat,
    Nat.reduceMod, Nat.shiftLeft_eq]
  rw [or_eq_add (k := 16) (by omega) (by omega)]
  omega

theorem strtol_formatByte {n : Nat} (hn : n < 256) {rest : List UInt8} (hrest : ∀ c ∈ rest.head?, Stops c) :
    strtol 10 (formatUnsigned n ++ rest) = ((n : Int), rest) := by
  have hclamp : clampLong n = n := clampLong_eq (by omega) (by omega)
  rw [(numeral_formatUnsigned n).strtol_append (by decide) hrest, hclamp]

theorem formatUnsigned_head (n : Nat) (rest : List UInt8) :
    isdigit ((formatUnsigned n ++ rest).headD 0) = true := by
  obtain ⟨c, ds, hc⟩ := formatUnsigned_cons n
  have hall := (formatUnsigned_spec n).1
  rw [hc] at hall ⊢
  exact hall c List.mem_cons_self

theorem ipv4Groups_cons {n more : Nat} (hn : n < 256) (rest : List UInt8) :
    ipv4Groups (more + 1) (formatUnsigned n ++ ch '.' :: rest) =
      (ipv4Groups more rest).map (UInt32.ofNat n :: ·) := by
  rw [ipv4Groups, formatUnsigned_head, strtol_formatByte hn (stops_dot.head rest)]
  simp only [Bool.not_true, Bool.false_eq_true, if_false]
  rw [if_neg (by omega), if_neg (by simp)]
  rfl

theorem ipv4Groups_last {n : Nat} (hn : n < 256) :
    ipv4Groups 0 (formatUnsigned n) = some [UInt32.ofNat n] := by
  have hhead := formatUnsigned_head n []
  have hstrtol : strtol 10 (formatUnsigned n ++ []) = ((n : Int), []) :=
    strtol_formatByte hn nofun
  rw [List.append_nil] at hhead hstrtol
  rw [ipv4Groups, hhead, hstrtol]
  simp only [Bool.not_true, Bool.false_eq_true, if_false]
  rw [if_neg (by omega), if_pos trivial]
  rfl

theorem stringToIp_v4 (ipv4 : UInt32) :
    uCxStringToIpAddress (Arg.ipAddress (.v4 ipv4)).token = some (.v4 ipv4) := by
  have hdot : ((Arg.ipAddress (.v4 ipv4)).token).contains (ch '.') = true := by
    rw [token_ipv4]
    simp
  rw [uCxStringToIpAddress, if_pos hdot, ipv4StringToIpAddress, token_ipv4]
  simp only [List.append_assoc, List.cons_append]
  rw [ipv4Groups_cons (by omega), ipv4Groups_cons (by omega), ipv4Groups_cons (by omega),
    ipv4Groups_last (by omega)]
  simp only [Option.map_some, ipv4_bytes]

theorem ipv6Groups_cons {n more : Nat} (hn : n < 65536) (b : Bool) (rest : List UInt8) :
    ipv6Groups b (more + 1) (formatHex4 n ++ ch ':' :: rest) =
      (ipv6Groups b more rest).map (UInt32.ofNat n :: ·) := by
  have hlen : (formatHex4 n ++ ch ':' :: rest).length - (ch ':' :: rest).length = 4 := by
    simp [formatHex4]
  rw [ipv6Groups, strtol_formatHex4 hn (stops_colon.head rest), if_neg (by simp [formatHex4])]
  simp only [hlen, Nat.lt_irrefl, if_false]
  rw [if_neg (by simp), Int.emod_eq_of_lt (by omega) (by omega)]
  rfl

theorem ipv6Groups_last {n : Nat} (hn : n < 65536) :
    ipv6Groups true 0 (formatHex4 n ++ [ch ']']) = some [UInt32.ofNat n] := by
  have hlen : (formatHex4 n ++ [ch ']']).length - [ch ']'].length = 4 := rfl
  rw [ipv6Groups, strtol_formatHex4 hn (stops_close.head []), if_neg (by simp [formatHex4])]
  simp only [hlen, Nat.lt_irrefl, if_false]
  rw [if_neg (by simp), if_neg (by simp), Int.emod_eq_of_lt (by omega) (by omega)]
  rfl

theorem stringToIp_v6 (w0 w1 w2 w3 : UInt32) :
    uCxStringToIpAddress (Arg.ipAddress (.v6 w0 w1 w2 w3)).token = some (.v6 w0 w1 w2 w3) := by
  have hdigit : ∀ d < 16, ch '.' ≠ hexDigit d := by decide
  have hgroup : ∀ n, ch '.' ∉ formatHex4 n := by
    intro n h
    simp only [formatHex4, List.mem_cons, List.not_mem_nil, or_false] at h
    rcases h with h | h | h | h <;> exact hdigit _ (by omega) h
  have hword : ∀ w, ch '.' ∉ formatIpv6Word w := by
    intro w h
    simp only [formatIpv6Word, List.mem_append, List.mem_cons] at h
    rcases h with h | h | h
    · exact hgroup _ h
    · exact absurd h (by decide)
    · exact hgroup _ h
  have hdot : ((Arg.ipAddress (.v6 w0 w1 w2 w3)).token).contains (ch '.') = false := by
    rw [token_ipv6]
    have hne : ch '.' ≠ ch '[' ∧ ch '.' ≠ ch ':' ∧ ch '.' ≠ ch ']' := by decide
    simp [hword, hne]
  have h0 := w0.toNat_lt
  have h1 := w1.toNat_lt
  have h2 := w2.toNat_lt
  have h3 := w3.toNat_lt
  rw [uCxStringToIpAddress, hdot, token_ipv6]
  simp only [Bool.false_eq_true, if_false, ipv6StringToIpAddress, formatIpv6Word, List.cons_append,
    List.append_assoc, List.headD_cons, beq_self_eq_true, if_true, List.drop_succ_cons, List.drop_zero]
  rw [ipv6Groups_cons (by omega), ipv6Groups_cons (by omega), ipv6Groups_cons (by omega),
    ipv6Groups_cons (by omega), ipv6Groups_cons (by omega), ipv6Groups_cons (by omega),
    ipv6Groups_cons (by omega), ipv6Groups_last (by omega)]
  simp only [Option.map_some, ipv6_groups]

theorem decodes_ipAddress (ip : SockIpAddress) : Decodes (.ipAddress ip) := by
  refine .of_converted (o := .ipAddress ip) (fun pre post => ?_) fun m => rfl
  have hstr := cstr_mid (zero_notMem_token (a := .ipAddress ip) rfl rfl) pre post
  rw [show (Arg.ipAddress ip).fmt = ch 'i' from rfl, ParseParams.param_i, hstr]
  cases ip with
  | v4 ipv4 => rw [stringToIp_v4, Option.map_some]
  | v6 w0 w1 w2 w3 => rw [stringToIp_v6, Option.map_some]

/-! ### MAC and Bluetooth addresses -/

/-- The bytes of an address of six bytes are the address. -/
theorem vector_of_toList (v : Vector UInt8 6) (h : v.toList.toArray.size = 6) :
    (⟨v.toList.toArray, h⟩ : Vector UInt8 6) = v := by
  obtain ⟨bytes, hbytes⟩ := v
  exact Vector.toArray_inj.1 Array.toArray_toList

theorem hexToBinary_address (v : Vector UInt8 6) (rest : List UInt8) :
    uCxAtUtilHexToBinary (v.toList.flatMap uCxAtUtilByteToHex ++ rest) 6 = v.toList := by
  have h := hexToBinary_byteToHex v.toList rest
  rwa [Vector.length_toList] at h

theorem decodes_macAddress (mac : MacAddress) : Decodes (.macAddress mac) := by
  refine .of_converted (o := .macAddress mac) (fun pre post => ?_) fun m => rfl
  have hstr := cstr_mid (zero_notMem_token (a := .macAddress mac) rfl rfl) pre post
  have hbytes := hexToBinary_address mac.address []
  rw [List.append_nil] at hbytes
  have hlen : ¬(mac.address.toList.flatMap uCxAtUtilByteToHex).length ≠ 12 := by
    rw [length_byteToHex, Vector.length_toList]
    decide
  have hmac : uCxStringToMacAddress (Arg.macAddress mac).token = some mac := by
    rw [token_macAddress, uCxStringToMacAddress, if_neg hlen]
    simp only [hbytes, Vector.length_toList, dite_true, vector_of_toList]
  rw [show (Arg.macAddress mac).fmt = ch 'm' from rfl, ParseParams.param_m, hstr, hmac]
  rfl

theorem decodes_btLeAddress (bd : BtLeAddress) (h : bd.type ≠ .typeUnknown) :
    Decodes (.btLeAddress bd) := by
  refine .of_converted (o := .btLeAddress bd) (fun pre post => ?_) fun m => rfl
  have hstr := cstr_mid (zero_notMem_token (a := .btLeAddress bd) rfl rfl) pre post
  have htype : findBdAddressType (pre ++ (Arg.btLeAddress bd).token ++ 0 :: post) pre.length =
      some (some bd.type) := by
    rw [findBdAddressType, hstr, token_btLeAddress, charBefore_mid]
    cases htype : bd.type with
    | typeRandom => rfl
    | typePublic => rfl
    | typeUnknown => exact absurd htype h
  have hbd : uCxStringToBdAddress (pre ++ (Arg.btLeAddress bd).token ++ 0 :: post) pre.length =
      some (some bd) := by
    simp only [uCxStringToBdAddress, htype, hstr, Option.map_some]
    simp only [token_btLeAddress, hexToBinary_address, Vector.length_toList, dite_true,
      vector_of_toList]
  rw [show (Arg.btLeAddress bd).fmt = ch 'b' from rfl, ParseParams.param_b _ _ _ hbd]
  rfl

/-! ## Strings -/

/-- The buffer holds the escaped string. -/
def EscapeFits (s : List UInt8) : Prop := (uCxAtUtilWriteEscString s SendCmd.bufSize).isSome

theorem EscapeFits.token {a : Arg} {s : List UInt8} (h : EscapeFits s) (hs : a.string? = some s) :
    a.token = ch '"' :: s.flatMap escapeCharacter ++ [ch '"'] := by
  rw [token_string hs, stringText_eq, if_pos, escapedForm]
  rw [EscapeFits, writeEscString_eq s (by decide)] at h
  split at h
  · assumption
  · cases h

/-- The string is decoded behind its first quote; the last one becomes the terminator. -/
theorem unescape_quoted (s pre post : List UInt8) :
    ∃ t, (ch '"' :: t).length = (ch '"' :: s.flatMap escapeCharacter ++ [ch '"']).length ∧
      unescapeString ((pre ++ (ch '"' :: s.flatMap escapeCharacter ++ [ch '"']) ++ 0 :: post).set
          (pre.length + (ch '"' :: s.flatMap escapeCharacter ++ [ch '"']).length - 1) 0)
          (pre.length + 1) = (pre ++ (ch '"' :: t) ++ 0 :: post, s.length) ∧
      ∃ gap, t = s ++ 0 :: gap := by
  obtain ⟨gap, hlen, heq⟩ := (Spells.of_escapes s).unescape (pre ++ [ch '"']) (0 :: post)
  refine ⟨s ++ 0 :: gap, ?_, ?_, gap, rfl⟩
  · simp only [List.length_append, List.length_cons, List.length_nil] at hlen ⊢
    omega
  · have hset : (pre ++ (ch '"' :: s.flatMap escapeCharacter ++ [ch '"']) ++ 0 :: post).set
        (pre.length + (ch '"' :: s.flatMap escapeCharacter ++ [ch '"']).length - 1) 0 =
        pre ++ [ch '"'] ++ s.flatMap escapeCharacter ++ 0 :: 0 :: post := by
      rw [set_last]
      simp
    have hp : pre.length + 1 = (pre ++ [ch '"']).length := by simp
    rw [hset, hp, heq]
    simp

theorem decodes_str (s : CString) (h : EscapeFits s.chars) : Decodes (.str s) := by
  intro pre post
  obtain ⟨t, hlen, heq, gap, rfl⟩ := unescape_quoted s.chars pre post
  have htok : (Arg.str s).token = _ := h.token rfl
  refine ⟨ch '"' :: (s.chars ++ 0 :: gap), .str (pre.length + 1), ?_, ?_, fun post' => ?_⟩
  · rw [htok]
    exact hlen
  · rw [show (Arg.str s).fmt = ch 's' from rfl, ParseParams.param_s, htok, heq]
    rw [htok, List.append_assoc]
    exact getD_mid _ _ _
  · have hstr := cstr_mid s.nulFree (pre ++ [ch '"']) (gap ++ 0 :: post')
    simp only [List.append_assoc, List.cons_append, List.nil_append, List.length_append,
      List.length_cons, List.length_nil, Nat.zero_add] at hstr ⊢
    simp only [Output.value, hstr]

theorem decodes_binStr (s : List UInt8) (h : EscapeFits s) : Decodes (.binStr s) := by
  intro pre post
  obtain ⟨t, hlen, heq, gap, rfl⟩ := unescape_quoted s pre post
  have htok : (Arg.binStr s).token = _ := h.token rfl
  refine ⟨ch '"' :: (s ++ 0 :: gap), .binStr (pre.length + 1) s.length, ?_, ?_, fun post' => ?_⟩
  · rw [htok]
    exact hlen
  · rw [show (Arg.binStr s).fmt = ch '$' from rfl, ParseParams.param_binStr, htok, heq]
    · rw [htok, List.append_assoc]
      exact getD_mid _ _ _
    · rw [htok]
      simp only [List.length_append, List.length_cons, List.length_nil]
      omega
    · rw [htok]
      exact getD_last _ _ _ _
  · have hload := load_mid (pre ++ [ch '"']) s (0 :: gap ++ 0 :: post') (pre.length + 1) s.length
      (by simp) rfl
    simp only [List.append_assoc, List.cons_append, List.nil_append] at hload ⊢
    simp only [Output.value, hload]

/-! ## Byte arrays -/

/-- The bytes are stored behind those that are read. -/
theorem hexLoop_byteToHex (bs : List UInt8) {m rest : List UInt8} {p i : Nat}
    (h : m.drop (p + i * 2) = bs.flatMap uCxAtUtilByteToHex ++ rest) :
    ParseParams.hexLoop p bs.length i m = (store m (p + i) bs, true) := by
  induction bs generalizing m i with
  | nil => rfl
  | cons b bs ih =>
    obtain ⟨high, low, hb, hv, -⟩ := byteToHex_spec b
    rw [List.flatMap_cons, hb, List.append_assoc] at h
    have h0 := getD_of_drop h 0
    have h1 := getD_of_drop h 1
    simp only [Nat.add_zero, List.cons_append, List.getD_cons_zero, List.getD_cons_succ] at h0 h1
    have hdrop : (m.set (p + i) b).drop (p + (i + 1) * 2) =
        bs.flatMap uCxAtUtilByteToHex ++ rest := by
      rw [drop_set_of_lt _ (by omega), show p + (i + 1) * 2 = p + i * 2 + 2 by omega,
        ← List.drop_drop, h]
      rfl
    simp only [List.length_cons, ParseParams.hexLoop, h0, h1, hv, ih hdrop, store]
    rfl

theorem decodes_bytes (bs : List UInt8) : Decodes (.bytes bs) := by
  intro pre post
  have hstr := cstr_mid (zero_notMem_token (a := .bytes bs) rfl rfl) pre post
  have hlen := length_byteToHex bs
  obtain ⟨gap, hgap, hstore⟩ := store_prefix pre (bs.flatMap uCxAtUtilByteToHex) (0 :: post) bs
    (by omega)
  have hdrop : (pre ++ bs.flatMap uCxAtUtilByteToHex ++ 0 :: post).drop (pre.length + 0 * 2) =
      bs.flatMap uCxAtUtilByteToHex ++ 0 :: post := by simp
  have hloop := hexLoop_byteToHex bs hdrop
  refine ⟨bs ++ gap, .bytes pre.length bs.length, ?_, ?_, fun post' => ?_⟩
  · rw [token_bytes, hgap]
  · rw [token_bytes] at hstr
    have hhalf : (bs.flatMap uCxAtUtilByteToHex).length / 2 = bs.length := by omega
    rw [show (Arg.bytes bs).fmt = ch 'h' from rfl, ParseParams.param_h, token_bytes, hstr, hhalf,
      hloop, Nat.add_zero, hstore]
    · rfl
    · rw [token_bytes, hstr]
      omega
  · have hload := load_mid pre bs (gap ++ 0 :: post') pre.length bs.length rfl rfl
    simp only [List.append_assoc] at hload ⊢
    simp only [Output.value, hload]

/-! ## Integer lists -/

/-- The integers of a list behind the first one. -/
def moreInts (vs : List Int16) : List UInt8 := vs.flatMap fun v => ch ',' :: formatInt v.toInt

theorem isNumeral_ne_zero {c : UInt8} (h : isNumeral c = true) : c ≠ 0 := by
  rintro rfl
  exact absurd h (by decide)

theorem length_formatInt_pos (n : Int) : 0 < (formatInt n).length := by
  obtain ⟨c, ds, h, -⟩ := formatInt_chars n
  simp [h]

theorem length_moreInts (vs : List Int16) : 2 * vs.length ≤ (moreInts vs).length := by
  induction vs with
  | nil => exact Nat.zero_le _
  | cons v vs ih =>
    have hpos := length_formatInt_pos v.toInt
    rw [moreInts, List.flatMap_cons, ← moreInts, List.length_append, List.length_cons,
      List.length_cons]
    omega

theorem count_moreInts (vs : List Int16) : (moreInts vs).count (ch ',') = vs.length := by
  have hnone : ∀ n, (formatInt n).count (ch ',') = 0 := fun n =>
    List.count_eq_zero.2 fun h => (isNumeral_facts _ (isNumeral_formatInt n _ h)).2.2.2 rfl
  induction vs with
  | nil => rfl
  | cons v vs ih =>
    rw [moreInts, List.flatMap_cons, ← moreInts, List.count_append, List.count_cons_self, hnone, ih,
      List.length_cons]
    omega

/-- What is left of a list is a string up to its terminator. -/
theorem cstr_ints {m rest : List UInt8} {p : Nat} {v : Int16} {vs : List Int16}
    (h : m.drop p = formatInt v.toInt ++ moreInts vs ++ ch ']' :: 0 :: rest) :
    cstr m p = formatInt v.toInt ++ (moreInts vs ++ [ch ']']) := by
  have hmore : 0 ∉ moreInts vs := by
    intro hmem
    obtain ⟨w, -, hmem⟩ := List.mem_flatMap.1 hmem
    rcases List.mem_cons.1 hmem with h0 | hmem
    · exact absurd h0 (by decide)
    · exact isNumeral_ne_zero (isNumeral_formatInt _ _ hmem) rfl
  have hnz : 0 ∉ formatInt v.toInt ++ (moreInts vs ++ [ch ']']) := by
    simp only [List.mem_append, List.mem_singleton, not_or]
    exact ⟨fun h0 => isNumeral_ne_zero (isNumeral_formatInt _ _ h0) rfl, hmore, by decide⟩
  have hmid := cstr_mid hnz [] rest
  have hlist : [] ++ (formatInt v.toInt ++ (moreInts vs ++ [ch ']'])) ++ 0 :: rest = m.drop p := by
    rw [h]
    simp
  rw [hlist, cstr, List.length_nil, List.drop_zero] at hmid
  exact hmid

theorem strtol_ints (v : Int16) (vs : List Int16) :
    strtol 10 (formatInt v.toInt ++ (moreInts vs ++ [ch ']'])) =
      (v.toInt, moreInts vs ++ [ch ']']) := by
  have hr1 := v.le_toInt
  have hr2 := v.toInt_lt
  refine strtol_formatInt (by omega) (by omega) ?_
  cases vs with
  | nil => exact stops_close.head []
  | cons w ws => exact stops_comma.head _

/-- An integer is stored in the text of those that are read already. -/
theorem intListLoop_ints (v : Int16) (vs : List Int16) {m rest : List UInt8} {p i pParse : Nat}
    (h : m.drop pParse = formatInt v.toInt ++ moreInts vs ++ ch ']' :: 0 :: rest)
    (hp : p + 2 * i < pParse) :
    intListLoop p vs.length i m pParse = (store m (p + 2 * i) ((v :: vs).flatMap i16Bytes),
      some (pParse + (formatInt v.toInt ++ moreInts vs).length)) := by
  induction vs generalizing v m i pParse with
  | nil =>
    have hr1 := v.le_toInt
    have hr2 := v.toInt_lt
    have hpos := length_formatInt_pos v.toInt
    have hlen : ((formatInt v.toInt ++ (moreInts [] ++ [ch ']'])).length -
        (moreInts [] ++ [ch ']']).length) = (formatInt v.toInt ++ moreInts []).length := by
      simp [moreInts]
    rw [List.length_nil, intListLoop, cstr_ints h, strtol_ints]
    simp only [hlen, Int16.ofInt_toInt]
    rw [if_neg (by simp only [List.length_append]; omega)]
    simp
  | cons w ws ih =>
    have hr1 := v.le_toInt
    have hr2 := v.toInt_lt
    have hpos := length_formatInt_pos v.toInt
    have hlen : ((formatInt v.toInt ++ (moreInts (w :: ws) ++ [ch ']'])).length -
        (moreInts (w :: ws) ++ [ch ']']).length) = (formatInt v.toInt).length := by
      simp
    -- the store ends before the comma
    have hcomma : (store m (p + 2 * i) (i16Bytes v)).drop (pParse + (formatInt v.toInt).length) =
        ch ',' :: (formatInt w.toInt ++ moreInts ws ++ ch ']' :: 0 :: rest) := by
      rw [drop_store_of_le _ _ _ _ (by simp only [i16Bytes, length_u16Bytes]; omega),
        ← List.drop_drop, h]
      simp [moreInts]
    have hrest : (store m (p + 2 * i) (i16Bytes v)).drop (pParse + (formatInt v.toInt).length + 1) =
        formatInt w.toInt ++ moreInts ws ++ ch ']' :: 0 :: rest := by
      rw [← List.drop_drop, hcomma]
      rfl
    have hget := getD_of_drop hcomma 0
    rw [Nat.add_zero, List.getD_cons_zero] at hget
    rw [List.length_cons, intListLoop, cstr_ints h, strtol_ints]
    simp only [hlen, Int16.ofInt_toInt]
    rw [if_neg (by simp only [List.length_append]; omega)]
    simp only [hget, ne_eq, not_true_eq_false, if_false]
    rw [ih w hrest (by omega)]
    refine Prod.ext ?_ ?_
    · rw [List.flatMap_cons, List.flatMap_cons, store_append, ← List.flatMap_cons]
      rfl
    · simp only [moreInts, List.flatMap_cons, List.length_append, List.length_cons, Option.some.injEq]
      omega

/-- The text of a list that is not empty, and what is left when it has been decoded. -/
theorem stringToIntList_ints (v : Int16) (vs : List Int16) (pre post : List UInt8) :
    ∃ gap, ((v :: vs).flatMap i16Bytes ++ gap).length =
        (ch '[' :: (formatInt v.toInt ++ moreInts vs) ++ [ch ']']).length ∧
      uCxStringToIntList (pre ++ (ch '[' :: (formatInt v.toInt ++ moreInts vs) ++ [ch ']']) ++ 0 :: post)
          pre.length =
        (pre ++ ((v :: vs).flatMap i16Bytes ++ gap) ++ 0 :: post,
          some ⟨some pre.length, (v :: vs).length⟩) := by
  have hstr := cstr_mid (zero_notMem_token (a := .intList (v :: vs)) rfl rfl) pre post
  rw [show (Arg.intList (v :: vs)).token = _ from intListText_cons (ch '[') v vs, ← moreInts] at hstr
  obtain ⟨c, ds, hcons, hc, -⟩ := formatInt_chars v.toInt
  have hlen := length_moreInts vs
  have hpos := length_formatInt_pos v.toInt
  have hbytes := length_i16Bytes (v :: vs)
  rw [List.length_cons] at hbytes
  obtain ⟨gap, hgap, hstore⟩ := store_prefix pre (ch '[' :: (formatInt v.toInt ++ moreInts vs))
    (ch ']' :: 0 :: post) ((v :: vs).flatMap i16Bytes)
    (by simp only [List.length_cons, List.length_append]; omega)
  have hm : pre ++ (ch '[' :: (formatInt v.toInt ++ moreInts vs) ++ [ch ']']) ++ 0 :: post =
      pre ++ ch '[' :: (formatInt v.toInt ++ moreInts vs) ++ ch ']' :: 0 :: post := by simp
  have hdrop : (pre ++ ch '[' :: (formatInt v.toInt ++ moreInts vs) ++ ch ']' :: 0 :: post).drop
      (pre.length + 1) = formatInt v.toInt ++ moreInts vs ++ ch ']' :: 0 :: post := by
    rw [← List.drop_drop, List.append_assoc, List.drop_left]
    simp
  have hloop := intListLoop_ints v vs (p := pre.length) (i := 0) hdrop (by omega)
  rw [Nat.mul_zero, Nat.add_zero pre.length, hstore] at hloop
  have hempty : ¬(2 ≤ (ch '[' :: (formatInt v.toInt ++ moreInts vs) ++ [ch ']']).length ∧
      (ch '[' :: (formatInt v.toInt ++ moreInts vs) ++ [ch ']']).headD 0 = ch '[' ∧
      (ch '[' :: (formatInt v.toInt ++ moreInts vs) ++ [ch ']']).getD 1 0 = ch ']') := by
    rintro ⟨-, -, h⟩
    rw [hcons] at h
    have hclose : c = ch ']' := h
    rcases hc with hc | hc
    · exact absurd (hc.symm.trans hclose) (by decide)
    · rw [hclose] at hc
      exact absurd hc (by decide)
  have hshort : ¬((ch '[' :: (formatInt v.toInt ++ moreInts vs) ++ [ch ']']).length < 3 ∨
      (ch '[' :: (formatInt v.toInt ++ moreInts vs) ++ [ch ']']).headD 0 ≠ ch '[') := by
    simp only [List.length_append, List.length_cons, List.length_nil, List.cons_append, List.headD_cons,
      ne_eq, not_true_eq_false, or_false]
    omega
  have hcommas : (((ch '[' :: (formatInt v.toInt ++ moreInts vs) ++ [ch ']']).drop 1).dropLast).count
      (ch ',') = vs.length := by
    have hnone : (formatInt v.toInt).count (ch ',') = 0 := List.count_eq_zero.2 fun h =>
      (isNumeral_facts _ (isNumeral_formatInt _ _ h)).2.2.2 rfl
    rw [List.cons_append, List.drop_one, List.tail_cons, List.dropLast_concat, List.count_append,
      count_moreInts, hnone, Nat.zero_add]
  have hclose : (pre ++ ((v :: vs).flatMap i16Bytes ++ gap) ++ ch ']' :: 0 :: post).getD
      (pre.length + 1 + (formatInt v.toInt ++ moreInts vs).length) 0 = ch ']' := by
    have hidx : pre.length + 1 + (formatInt v.toInt ++ moreInts vs).length =
        (pre ++ ((v :: vs).flatMap i16Bytes ++ gap)).length := by
      have hsum : (pre ++ ((v :: vs).flatMap i16Bytes ++ gap)).length =
          pre.length + ((v :: vs).flatMap i16Bytes ++ gap).length := List.length_append
      rw [hsum, hgap, List.length_cons]
      omega
    rw [hidx]
    exact getD_mid _ _ _
  refine ⟨gap ++ [ch ']'], ?_, ?_⟩
  · rw [← List.append_assoc, List.length_append, hgap, List.length_append]
  · simp only [uCxStringToIntList, hstr]
    rw [if_neg hempty, if_neg hshort]
    simp only [hcommas, hm, hloop]
    rw [if_pos hclose]
    simp

theorem decodes_intList (vs : List Int16) : Decodes (.intList vs) := by
  intro pre post
  cases vs with
  | nil =>
    have hstr := cstr_mid (zero_notMem_token (a := .intList []) rfl rfl) pre post
    refine ⟨text "[]", .intList ⟨none, 0⟩, rfl, ?_, fun post' => rfl⟩
    rw [show (Arg.intList []).token = text "[]" from rfl] at hstr ⊢
    rw [show (Arg.intList []).fmt = ch 'l' from rfl, ParseParams.param_l, uCxStringToIntList, hstr]
    rfl
  | cons v vs =>
    have htok : (Arg.intList (v :: vs)).token =
        ch '[' :: (formatInt v.toInt ++ moreInts vs) ++ [ch ']'] := intListText_cons (ch '[') v vs
    obtain ⟨gap, hgap, heq⟩ := stringToIntList_ints v vs pre post
    refine ⟨(v :: vs).flatMap i16Bytes ++ gap, .intList ⟨some pre.length, (v :: vs).length⟩, ?_, ?_,
      fun post' => ?_⟩
    · rw [htok, hgap]
    · rw [show (Arg.intList (v :: vs)).fmt = ch 'l' from rfl, ParseParams.param_l, htok, heq]
      rfl
    · have hload := loadI16s_i16Bytes (v :: vs) pre (gap ++ 0 :: post')
      simp only [← List.append_assoc] at hload ⊢
      simp only [Output.value, Option.getD_some, hload]

/-! ## The parameters -/

/-- The argument of a parameter that can be parsed back: a string that fits in the buffer when it is
escaped, a Bluetooth address of a known type, and anything else but a binary transfer. -/
def Arg.Parsable (a : Arg) : Prop :=
  a.isBinary = false ∧ (∀ s, a.string? = some s → EscapeFits s) ∧
    ∀ bd, a = .btLeAddress bd → bd.type ≠ .typeUnknown

theorem Arg.parsable_int (i : Int32) : (Arg.int i).Parsable :=
  ⟨rfl, by rintro _ ⟨⟩, by rintro _ ⟨⟩⟩

theorem Arg.Parsable.decodes {a : Arg} (h : a.Parsable) : Decodes a := by
  obtain ⟨hb, hs, hbd⟩ := h
  cases a with
  | int i => exact decodes_int i
  | intList vs => exact decodes_intList vs
  | str s => exact decodes_str s (hs _ rfl)
  | binStr s => exact decodes_binStr s (hs _ rfl)
  | ipAddress ip => exact decodes_ipAddress ip
  | macAddress mac => exact decodes_macAddress mac
  | btLeAddress bd => exact decodes_btLeAddress bd (hbd bd rfl)
  | binary => cases hb
  | bytes bs => exact decodes_bytes bs

/-- Its text is one token. -/
theorem Arg.Parsable.closed {a : Arg} (h : a.Parsable) : Closed a.token := by
  cases hs : a.string? with
  | none => exact token_closed h.1 hs
  | some s =>
    rw [(h.2.1 s hs).token hs]
    exact (Spells.of_escapes s).closed

theorem Arg.Parsable.zero_notMem {a : Arg} (h : a.Parsable) : 0 ∉ a.token := by
  cases hs : a.string? with
  | none => exact zero_notMem_token h.1 hs
  | some s =>
    have hesc : ∀ c, 0 ∉ escapeCharacter c := fun c h0 =>
      absurd (isprint_escapeCharacter h0) (by decide)
    rw [(h.2.1 s hs).token hs]
    simp only [List.mem_append, List.mem_cons, List.mem_flatMap, List.not_mem_nil, or_false, not_or,
      not_exists, not_and]
    exact ⟨⟨by decide, fun c _ => hesc c⟩, by decide⟩

theorem zero_notMem_commaSeparated {args : List Arg} (h : ∀ a ∈ args, a.Parsable) :
    0 ∉ commaSeparated (args.map Arg.token) := by
  intro hmem
  rcases mem_commaSeparated hmem with h0 | ⟨t, ht, hmem⟩
  · exact absurd h0 (by decide)
  · obtain ⟨a, ha, rfl⟩ := List.mem_map.1 ht
    exact (h a ha).zero_notMem hmem

theorem commaSeparated_cons (t u : List UInt8) (ts : List (List UInt8)) :
    commaSeparated (t :: u :: ts) = t ++ ch ',' :: commaSeparated (u :: ts) := rfl

/-- The loop: what is before the parameters is kept, and the outputs read what is behind. -/
theorem loop_decodes {args : List Arg} (h : ∀ a ∈ args, a.Parsable) (pre post : List UInt8)
    (ret : Int) (outputs : List Output) :
    ∃ rest new, ParseParams.loop (args.map Arg.fmt)
        (pre ++ commaSeparated (args.map Arg.token) ++ 0 :: post) pre.length ret outputs =
      some ⟨ret + args.length, pre ++ rest, outputs ++ new⟩ ∧
      new.map (Output.value (pre ++ rest)) = args := by
  induction args generalizing pre ret outputs with
  | nil =>
    refine ⟨0 :: post, [], ?_, rfl⟩
    simp [commaSeparated, ParseParams.loop]
  | cons a args ih =>
    have ha := h a List.mem_cons_self
    cases args with
    | nil =>
      have hstr := cstr_mid ha.zero_notMem pre post
      obtain ⟨t, o, -, hparam, hvalue⟩ := ha.decodes pre post
      have hlast : (pre ++ a.token ++ 0 :: post).getD (pre.length + a.token.length) 0 = 0 :=
        getD_behind _ _ _ _
      refine ⟨t ++ 0 :: post, [o], ?_, ?_⟩
      · simp only [List.map_cons, List.map_nil, commaSeparated, List.flatMap_nil, List.append_nil,
          ParseParams.loop, hstr, findParamEnd_end ha.closed, hlast, beq_self_eq_true, if_true,
          hparam]
        simp
      · rw [← List.append_assoc, List.map_singleton, hvalue post]
    | cons b args =>
      have hstr := cstr_mid (zero_notMem_commaSeparated h) pre post
      simp only [List.map_cons, commaSeparated_cons] at hstr ⊢
      -- what follows the comma, and the memory when the comma is a terminator
      have hm : ∀ c, pre ++ (a.token ++ c :: commaSeparated (b.token :: args.map Arg.token)) ++ 0 :: post =
          pre ++ a.token ++ c :: (commaSeparated (b.token :: args.map Arg.token) ++ 0 :: post) := by
        intro c
        simp
      obtain ⟨t, o, hlen, hparam, hvalue⟩ :=
        ha.decodes pre (commaSeparated (b.token :: args.map Arg.token) ++ 0 :: post)
      obtain ⟨rest, new, hloop, hnew⟩ := ih (fun c hc => h c (List.mem_cons_of_mem a hc))
        (pre ++ t ++ [0]) (ret + 1) (outputs ++ [o])
      have hget := getD_behind pre a.token (ch ',')
        (commaSeparated (b.token :: args.map Arg.token) ++ 0 :: post)
      have hset : (pre ++ a.token ++ ch ',' :: (commaSeparated (b.token :: args.map Arg.token) ++
          0 :: post)).set (pre.length + a.token.length) 0 =
          pre ++ a.token ++ 0 :: (commaSeparated (b.token :: args.map Arg.token) ++ 0 :: post) := by
        simp
      have hend : (pre ++ t ++ [0]).length = pre.length + a.token.length + 1 := by
        simp only [List.length_append, hlen, List.length_cons, List.length_nil]
      have hlast : (ch ',' == 0) = false := rfl
      refine ⟨t ++ 0 :: rest, o :: new, ?_, ?_⟩
      · rw [ParseParams.loop, hstr, findParamEnd_comma ha.closed]
        simp only [hm, hget, hlast, Bool.false_eq_true, if_false, hset, hparam]
        have hbehind : pre ++ t ++ 0 :: (commaSeparated (b.token :: args.map Arg.token) ++ 0 :: post) =
            pre ++ t ++ [0] ++ commaSeparated ((b :: args).map Arg.token) ++ 0 :: post := by simp
        rw [hend, ← hbehind] at hloop
        refine hloop.trans ?_
        simp only [List.length_cons, List.append_assoc, List.cons_append, List.nil_append,
          Option.some.injEq, ParseParams.Parsed.mk.injEq, and_self, and_true]
        omega
      · have hmem : pre ++ (t ++ 0 :: rest) = pre ++ t ++ [0] ++ rest := by simp
        have ha' : o.value (pre ++ t ++ [0] ++ rest) = a := by
          have hv := hvalue rest
          rwa [← hmem, ← List.append_assoc]
        rw [hmem, List.map_cons, hnew, ha']

/-- **Parsing undoes sending.** -/
theorem parse_send (pCmd : List UInt8) (args : List Arg) (h : ∀ a ∈ args, a.Parsable) :
    ∃ params, uCxAtClientSendCmdVaList pCmd (args.map Arg.fmt) args =
        some (pCmd ++ params ++ [ch '\r']) ∧
      ∀ pre post, ∃ r, uCxAtUtilParseParamsVaList (pre ++ params ++ 0 :: post) pre.length
          (args.map Arg.fmt) = some r ∧
        r.ret = (args.map Arg.fmt).length ∧ r.outputs.map (Output.value r.m) = args := by
  refine ⟨_, sendCmd_eq pCmd fun a ha => (h a ha).1, fun pre post => ?_⟩
  obtain ⟨rest, new, hloop, hnew⟩ := loop_decodes h pre post 0 []
  refine ⟨_, hloop, ?_, ?_⟩
  · simp
  · exact hnew

theorem parse_send_mixed :
    ∃ params, uCxAtClientSendCmdVaList (text "AT+X=") (text "d$lb")
        [.int (-5), .binStr [0, ch '"', ch ','], .intList [1, -2],
          .btLeAddress ⟨#v[1, 2, 3, 4, 5, 255], .typePublic⟩] =
        some (text "AT+X=" ++ params ++ [ch '\r']) ∧
      ∀ pre post, ∃ r, uCxAtUtilParseParamsVaList (pre ++ params ++ 0 :: post) pre.length
          (text "d$lb") = some r ∧
        r.ret = 4 ∧ r.outputs.map (Output.value r.m) =
          [.int (-5), .binStr [0, ch '"', ch ','], .intList [1, -2],
            .btLeAddress ⟨#v[1, 2, 3, 4, 5, 255], .typePublic⟩] :=
  parse_send (text "AT+X=")
    [.int (-5), .binStr [0, ch '"', ch ','], .intList [1, -2],
      .btLeAddress ⟨#v[1, 2, 3, 4, 5, 255], .typePublic⟩] (by
    intro a ha
    simp only [List.mem_cons, List.not_mem_nil, or_false] at ha
    rcases ha with rfl | rfl | rfl | rfl
    · exact ⟨rfl, by rintro _ ⟨⟩, by rintro _ ⟨⟩⟩
    · refine ⟨rfl, fun s hs => ?_, by rintro _ ⟨⟩⟩
      cases hs
      exact Eq.refl true
    · exact ⟨rfl, by rintro _ ⟨⟩, by rintro _ ⟨⟩⟩
    · refine ⟨rfl, by rintro _ ⟨⟩, fun bd hbd => ?_⟩
      cases hbd
      decide)
