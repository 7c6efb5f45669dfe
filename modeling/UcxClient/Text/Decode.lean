import UcxClient.Lib.Strtol
import UcxClient.Text.Values

/-!
# Decoding one token

`decode c t`: the value of the token `t` for the format character `c`, as a function of the characters of
the token alone, or `none` if it is rejected. A character that names no output has no value
(`assigns`).

The parser decodes a token in its place. `param_inPlace`: what the case of a format character writes stays
within the token, and its output reads as the value of the token, whatever becomes of the memory behind it.
-/

open ByteMem

/-! ## Decoding -/

/-- The characters that a string with escape sequences stands for. -/
def unescaped : List UInt8 → List UInt8
  | [] => []
  | [c] => [c]
  | c :: x :: cs =>
    if c ≠ ch '\\' then c :: unescaped (x :: cs)
    else if x ≠ ch 'x' then unescapeCharacter x ++ unescaped cs
    else
      match cs with
      | high :: low :: rest =>
        match uCxAtUtilHexToByte high low with
        | some byte => byte :: unescaped rest
        | none => x :: unescaped (high :: low :: rest)
      | [low] => [x, low]
      | [] => [x]

/-- What `s` takes for the string: a token that starts with a quote loses its last character too. -/
def stripQuotes (t : List UInt8) : List UInt8 := if t.headD 0 = ch '"' then t.tail.dropLast else t

/-- What `$` takes for the string: the last character is dropped if it is a quote. -/
def stripQuotesBin (t : List UInt8) : List UInt8 :=
  if t.headD 0 = ch '"' then (if t.tail.getLast? = some (ch '"') then t.tail.dropLast else t.tail)
  else t

theorem zero_notMem_takeWhile (s : List UInt8) : 0 ∉ s.takeWhile (· ≠ 0) := zero_notMem_cstr s 0

/-- A byte array from pairs of hexadecimal digits. -/
def hexBytes : List UInt8 → Option (List UInt8)
  | [] => some []
  | [_] => none
  | high :: low :: rest => do
    let byte ← uCxAtUtilHexToByte high low
    let bytes ← hexBytes rest
    some (byte :: bytes)

/-- The integer at the front of a string and that many behind commas, and what is left. -/
def commaInts : Nat → List UInt8 → Option (List Int16 × List UInt8)
  | more, s =>
    let (value, rest) := strtol 10 s
    if rest.length = s.length ∨ value < -32768 ∨ 32767 < value then none
    else match more with
      | 0 => some ([Int16.ofInt value], rest)
      | more + 1 =>
        if rest.headD 0 ≠ ch ',' then none
        else (commaInts more (rest.drop 1)).map fun (vs, rest) => (Int16.ofInt value :: vs, rest)

/-- A list of integers in brackets. -/
def bracketInts (t : List UInt8) : Option (List Int16) :=
  if 2 ≤ t.length ∧ t.headD 0 = ch '[' ∧ t.getD 1 0 = ch ']' then some []
  else if t.length < 3 ∨ t.headD 0 ≠ ch '[' then none
  else
    match commaInts ((t.drop 1).dropLast.count (ch ',')) (t.drop 1) with
    | some (vs, rest) => if rest.headD 0 = ch ']' then some vs else none
    | none => none

/-- The format characters that name an output. -/
def assigns (c : UInt8) : Bool := (text "ds$imblh").contains c

theorem assigns_iff {c : UInt8} : assigns c = true ↔ c = ch 'd' ∨ c = ch 's' ∨ c = ch '$' ∨ c = ch 'i' ∨
    c = ch 'm' ∨ c = ch 'b' ∨ c = ch 'l' ∨ c = ch 'h' := by
  have htext : text "ds$imblh" = [ch 'd', ch 's', ch '$', ch 'i', ch 'm', ch 'b', ch 'l', ch 'h'] := rfl
  simp [assigns, htext]

/-- The value of a token. -/
def decode (c : UInt8) (t : List UInt8) : Option Arg :=
  if c = ch 'd' then
    if (t.headD 0 ≠ ch '-' ∧ !isdigit (t.headD 0)) ∨ (strtol 10 t).2 ≠ [] then none
    else some (.int (Int32.ofInt (strtol 10 t).1))
  else if c = ch 's' then
    some (.str ⟨(unescaped (stripQuotes t)).takeWhile (· ≠ 0), zero_notMem_takeWhile _⟩)
  else if c = ch '$' then some (.binStr (unescaped (stripQuotesBin t)))
  else if c = ch 'i' then (uCxStringToIpAddress t).map .ipAddress
  else if c = ch 'm' then (uCxStringToMacAddress t).map .macAddress
  else if c = ch 'b' then (uCxStringToBdAddress t 0).join.map .btLeAddress
  else if c = ch 'l' then (bracketInts t).map .intList
  else if c = ch 'h' then (hexBytes t).map .bytes
  else none

example : decode (ch 's') (text "\"a\\\"\\x41\\q\"") = some (.str ⟨text "a\"A\\q", by decide⟩) := by
  decide +kernel

/-! ## Escaped strings in memory -/

theorem length_unescapeCharacter (c : UInt8) : (unescapeCharacter c).length ≤ 2 := by
  have hall : ∀ c, (unescapeCharacter c).length ≤ 2 := by
    apply forall_byte
    decide +kernel
  exact hall c

theorem unescaped_plain {c : UInt8} (h : c ≠ ch '\\') (cs : List UInt8) :
    unescaped (c :: cs) = c :: unescaped cs := by
  cases cs with
  | nil => rfl
  | cons x cs =>
    rw [unescaped.eq_def]
    exact if_pos h

theorem unescaped_escape {x : UInt8} (h : x ≠ ch 'x') (cs : List UInt8) :
    unescaped (ch '\\' :: x :: cs) = unescapeCharacter x ++ unescaped cs := by
  rw [unescaped.eq_def]
  simp [h]

/-- A turn of the loop reads a character or more, and writes what they stand for. -/
theorem unescapeTurn_eq {m body post : List UInt8} {p : Nat} (hm : m.drop p = body ++ 0 :: post)
    (hne : body ≠ []) (h0 : 0 ∉ body) :
    ∃ w k, unescapeTurn m p = (w, k) ∧ 0 < k ∧ k ≤ body.length ∧ w.length ≤ k ∧
      unescaped body = w ++ unescaped (body.drop k) := by
  have hget := getD_of_drop hm
  have hget0 := hget 0
  have hget1 := hget 1
  have hget2 := hget 2
  have hget3 := hget 3
  obtain _ | ⟨c, _ | ⟨x, cs⟩⟩ := body
  · exact absurd rfl hne
  · simp only [Nat.add_zero, List.cons_append, List.nil_append, List.getD_cons_zero,
      List.getD_cons_succ] at hget0 hget1
    refine ⟨[c], 1, ?_, by decide, Nat.le_refl _, Nat.le_refl _, rfl⟩
    rw [unescapeTurn, hget0, hget1, if_neg (by simp)]
  · simp only [List.mem_cons, not_or] at h0
    obtain ⟨-, hx, hcs⟩ := h0
    simp only [Nat.add_zero, List.cons_append, List.getD_cons_zero, List.getD_cons_succ] at hget0 hget1
    by_cases hc : c = ch '\\'
    · by_cases hxx : x = ch 'x'
      · -- the hexadecimal digits are there, or what is left is too short, or something else
        have hshort : (∀ high low rest, cs = high :: low :: rest → uCxAtUtilHexToByte high low = none) →
            unescapeTurn m p = ([x], 2) := by
          intro hnone
          rw [unescapeTurn, hget0, hget1, if_pos ⟨hc, Ne.symm hx⟩, if_pos hxx]
          obtain _ | ⟨high, _ | ⟨low, rest⟩⟩ := cs
          · simp_all
          · simp_all
          · simp only [List.cons_append, List.getD_cons_zero, List.getD_cons_succ] at hget2 hget3
            simp only [hget2, hget3, hnone high low rest rfl]
            exact ite_self _
        obtain _ | ⟨high, _ | ⟨low, rest⟩⟩ := cs
        · refine ⟨[x], 2, hshort (by rintro _ _ _ ⟨⟩), by decide, Nat.le_refl _, by simp, ?_⟩
          simp [unescaped, hc, hxx]
        · refine ⟨[x], 2, hshort (by rintro _ _ _ ⟨⟩), by decide, by simp, by simp, ?_⟩
          simp [unescaped, hc, hxx]
        · cases hbyte : uCxAtUtilHexToByte high low with
          | none =>
            refine ⟨[x], 2, hshort fun _ _ _ h => ?_, by decide, by simp, by simp, ?_⟩
            · cases h
              exact hbyte
            · simp [unescaped, hc, hxx, hbyte]
          | some byte =>
            simp only [List.mem_cons, not_or] at hcs
            simp only [List.cons_append, List.getD_cons_zero, List.getD_cons_succ] at hget2 hget3
            refine ⟨[byte], 4, ?_, by decide, by simp, by simp, ?_⟩
            · rw [unescapeTurn, hget0, hget1, if_pos ⟨hc, Ne.symm hx⟩, if_pos hxx, hget2, hget3,
                if_pos ⟨Ne.symm hcs.1, Ne.symm hcs.2.1⟩, hbyte]
            · simp [unescaped, hc, hxx, hbyte]
      · refine ⟨unescapeCharacter x, 2, ?_, by decide, by simp, length_unescapeCharacter x, ?_⟩
        · rw [unescapeTurn, hget0, hget1, if_pos ⟨hc, Ne.symm hx⟩, if_neg hxx]
        · rw [hc, unescaped_escape hxx]
          rfl
    · refine ⟨[c], 1, ?_, by decide, by simp, Nat.le_refl _, ?_⟩
      · rw [unescapeTurn, hget0, if_neg fun h => hc h.1]
      · exact unescaped_plain hc (x :: cs)

/-- The loop writes what the characters stand for, behind those that it has read. -/
theorem unescapeLoop_eq {n : Nat} {m body post : List UInt8} {pRead pWrite : Nat}
    (hm : m.drop pRead = body ++ 0 :: post) (h0 : 0 ∉ body) (hw : pWrite ≤ pRead)
    (hn : body.length ≤ n) :
    (unescaped body).length ≤ body.length ∧
      unescapeLoop n m pRead pWrite =
        (store m pWrite (unescaped body), pWrite + (unescaped body).length) := by
  induction n generalizing m body pRead pWrite with
  | zero =>
    obtain rfl := List.eq_nil_of_length_eq_zero (Nat.le_zero.1 hn)
    exact ⟨Nat.le_refl _, rfl⟩
  | succ n ih =>
    have hget := getD_of_drop hm 0
    rw [Nat.add_zero] at hget
    by_cases hne : body = []
    · subst hne
      refine ⟨Nat.le_refl _, ?_⟩
      have hend : m.getD pRead 0 = 0 := hget
      rw [unescapeLoop, if_pos hend]
      rfl
    · obtain ⟨w, k, hturn, hk, hkl, hwk, heq⟩ := unescapeTurn_eq hm hne h0
      have hhead : m.getD pRead 0 ≠ 0 := by
        obtain ⟨c, cs, rfl⟩ := List.exists_cons_of_ne_nil hne
        rw [hget]
        exact fun h => h0 (h ▸ List.mem_cons_self)
      have hdrop : (store m pWrite w).drop (pRead + k) = body.drop k ++ 0 :: post := by
        rw [drop_store_of_le _ _ _ _ (by omega), ← List.drop_drop, hm,
          List.drop_append_of_le_length hkl]
      have hbehind : pWrite + w.length ≤ pRead + k := by omega
      obtain ⟨hlen, hloop⟩ := ih hdrop (fun h => h0 (List.mem_of_mem_drop h)) hbehind
        (by simp only [List.length_drop]; omega)
      rw [List.length_drop] at hlen
      refine ⟨by rw [heq, List.length_append]; omega, ?_⟩
      rw [unescapeLoop, if_neg hhead, hturn]
      simp only [hloop, heq, store_append, List.length_append, Nat.add_assoc]

/-- **A string is decoded in its place**: what it stands for takes its first characters, and a
terminator follows. -/
theorem unescapeString_mid {body : List UInt8} (h0 : 0 ∉ body) (pre post : List UInt8) :
    ∃ t gap, t.length = body.length ∧ t ++ [0] = unescaped body ++ 0 :: gap ∧
      unescapeString (pre ++ body ++ 0 :: post) pre.length =
        (pre ++ t ++ 0 :: post, (unescaped body).length) := by
  have hdrop : (pre ++ body ++ 0 :: post).drop pre.length = body ++ 0 :: post := by
    rw [List.append_assoc, List.drop_left]
  obtain ⟨hlen, hloop⟩ := unescapeLoop_eq (n := (pre ++ body ++ 0 :: post).length - pre.length) hdrop h0
    (Nat.le_refl _) (by simp)
  have hset : (store (pre ++ body ++ 0 :: post) pre.length (unescaped body)).set
      (pre.length + (unescaped body).length) 0 =
        store (pre ++ body ++ 0 :: post) pre.length (unescaped body ++ [0]) := by
    rw [store_append]
    rfl
  simp only [unescapeString, hloop, Nat.add_sub_cancel_left, hset]
  rcases Nat.lt_or_eq_of_le hlen with hlt | heq
  · obtain ⟨gap, hgap, hstore⟩ := store_prefix pre body (0 :: post) (unescaped body ++ [0])
      (by simp only [List.length_append, List.length_cons, List.length_nil]; omega)
    exact ⟨unescaped body ++ [0] ++ gap, gap ++ [0], hgap, by simp, by rw [hstore]⟩
  · refine ⟨unescaped body, [], heq, rfl, ?_⟩
    have hmid := store_mid pre (body ++ [0]) post (unescaped body ++ [0]) pre.length rfl (by simp [heq])
    simp only [List.append_assoc, List.cons_append, List.nil_append] at hmid ⊢
    rw [hmid]

/-! ## Byte arrays in memory -/

/-- The bytes are stored behind those that are read; what is no digit stops the loop. -/
theorem hexLoop_store {n i p : Nat} {m t post : List UInt8} (hm : m.drop (p + i * 2) = t ++ post)
    (hlen : t.length = 2 * n) :
    ∃ bs, bs.length ≤ n ∧ (ParseParams.hexLoop p n i m).1 = store m (p + i) bs ∧
      ((ParseParams.hexLoop p n i m).2 = true → bs.length = n) ∧
      hexBytes t = if (ParseParams.hexLoop p n i m).2 then some bs else none := by
  induction n generalizing i m t with
  | zero =>
    obtain rfl := List.eq_nil_of_length_eq_zero hlen
    exact ⟨[], Nat.le_refl _, rfl, fun _ => rfl, rfl⟩
  | succ n ih =>
    match t, hlen with
    | high :: low :: t, hlen =>
      have hget0 := getD_of_drop hm 0
      have hget1 := getD_of_drop hm 1
      simp only [Nat.add_zero, List.cons_append, List.getD_cons_zero, List.getD_cons_succ] at hget0 hget1
      simp only [ParseParams.hexLoop, hget0, hget1, hexBytes]
      cases hbyte : uCxAtUtilHexToByte high low with
      | none => exact ⟨[], Nat.zero_le _, rfl, nofun, rfl⟩
      | some byte =>
        have hdrop : (m.set (p + i) byte).drop (p + (i + 1) * 2) = t ++ post := by
          rw [drop_set_of_lt _ (by omega), show p + (i + 1) * 2 = p + i * 2 + 2 by omega,
            ← List.drop_drop, hm]
          rfl
        simp only [List.length_cons] at hlen
        obtain ⟨bs, hbs, hstore, hall, hdecode⟩ := ih hdrop (by omega)
        refine ⟨byte :: bs, by simpa using hbs, hstore, fun h => by simpa using hall h, ?_⟩
        simp only [hdecode]
        cases (ParseParams.hexLoop p n (i + 1) (m.set (p + i) byte)).2 <;> rfl

/-! ## Integer lists in memory -/

theorem cstr_of_drop {m s post : List UInt8} {p : Nat} (hm : m.drop p = s ++ 0 :: post) (h0 : 0 ∉ s) :
    cstr m p = s := by
  have hmid := cstr_mid h0 [] post
  rw [List.nil_append, ← hm, cstr, List.length_nil, List.drop_zero] at hmid
  exact hmid

theorem getD_eq_headD {m s post : List UInt8} {p : Nat} (hm : m.drop p = s ++ 0 :: post) :
    m.getD p 0 = s.headD 0 := by
  have hget := getD_of_drop hm 0
  rw [Nat.add_zero] at hget
  rw [hget]
  cases s <;> rfl

/-- The end of a string in memory. -/
theorem drop_suffix {m s rest post : List UInt8} {p : Nat} (hm : m.drop p = s ++ 0 :: post)
    (h : rest <:+ s) : m.drop (p + (s.length - rest.length)) = rest ++ 0 :: post := by
  obtain ⟨front, rfl⟩ := h
  rw [← List.drop_drop, hm, List.length_append, Nat.add_sub_cancel, List.append_assoc, List.drop_left]

/-- Each integer is stored in the characters of those that are read already. -/
theorem intListLoop_eq {n i p pParse : Nat} {m s post : List UInt8}
    (hm : m.drop pParse = s ++ 0 :: post) (h0 : 0 ∉ s) (hp : p + 2 * i < pParse) :
    ∃ bs, p + 2 * i + bs.length ≤ pParse + s.length ∧
      (intListLoop p n i m pParse).1 = store m (p + 2 * i) bs ∧
      match commaInts n s with
      | none => (intListLoop p n i m pParse).2 = none
      | some (vs, rest) =>
        vs.length = n + 1 ∧ bs = vs.flatMap i16Bytes ∧ rest <:+ s ∧
          p + 2 * i + bs.length ≤ pParse + (s.length - rest.length) ∧
          (intListLoop p n i m pParse).2 = some (pParse + (s.length - rest.length)) := by
  induction n generalizing i m s pParse with
  | zero =>
    have hsuffix := strtol_suffix 10 s
    have hle := hsuffix.length_le
    rw [intListLoop, commaInts, cstr_of_drop hm h0]
    generalize strtol 10 s = r at hsuffix hle ⊢
    obtain ⟨value, rest⟩ := r
    simp only at hsuffix hle ⊢
    split
    · exact ⟨[], by simp only [List.length_nil]; omega, rfl, rfl⟩
    · next hok =>
      refine ⟨i16Bytes (Int16.ofInt value), ?_, rfl, rfl, ?_, hsuffix, ?_, rfl⟩
      · simp only [i16Bytes, length_u16Bytes]
        omega
      · simp
      · simp only [i16Bytes, length_u16Bytes]
        omega
  | succ n ih =>
    have hsuffix := strtol_suffix 10 s
    have hle := hsuffix.length_le
    rw [intListLoop, commaInts, cstr_of_drop hm h0]
    generalize strtol 10 s = r at hsuffix hle ⊢
    obtain ⟨value, rest⟩ := r
    simp only at hsuffix hle ⊢
    split
    · exact ⟨[], by simp only [List.length_nil]; omega, rfl, rfl⟩
    · next hok =>
      have hbytes : (i16Bytes (Int16.ofInt value)).length = 2 := length_u16Bytes _
      have hrest : (store m (p + 2 * i) (i16Bytes (Int16.ofInt value))).drop
          (pParse + (s.length - rest.length)) = rest ++ 0 :: post := by
        rw [drop_store_of_le _ _ _ _ (by omega)]
        exact drop_suffix hm hsuffix
      rw [getD_eq_headD hrest]
      split
      · exact ⟨_, by omega, rfl, rfl⟩
      · next hcomma =>
        obtain ⟨c, rest', rfl⟩ : ∃ c rest', rest = c :: rest' := by
          cases rest with
          | nil => exact absurd (by decide) hcomma
          | cons c rest' => exact ⟨c, rest', rfl⟩
        have hbehind : (store m (p + 2 * i) (i16Bytes (Int16.ofInt value))).drop
            (pParse + (s.length - (c :: rest').length) + 1) = rest' ++ 0 :: post := by
          rw [← List.drop_drop, hrest]
          rfl
        have h0' : 0 ∉ rest' := fun h => h0 (hsuffix.subset (List.mem_cons_of_mem c h))
        simp only [List.length_cons] at hle hok hbehind ⊢
        obtain ⟨bs, hbs, hstore, hmatch⟩ := ih (i := i + 1) hbehind h0' (by omega)
        refine ⟨i16Bytes (Int16.ofInt value) ++ bs, ?_, ?_, ?_⟩
        · rw [List.length_append, hbytes]
          omega
        · rw [store_append, hbytes]
          exact hstore
        · simp only [List.drop_one, List.tail_cons]
          cases hints : commaInts n rest' with
          | none =>
            rw [hints] at hmatch
            exact hmatch
          | some r =>
            obtain ⟨vs, rest⟩ := r
            rw [hints] at hmatch
            obtain ⟨hvs, rfl, hrest', hfit, hend⟩ := hmatch
            have hle' := hrest'.length_le
            simp only [Option.map_some]
            refine ⟨by simp [hvs], rfl, (hrest'.trans (List.suffix_cons _ _)).trans hsuffix, ?_, ?_⟩
            · rw [List.length_append, hbytes]
              omega
            · refine hend.trans ?_
              congr 1
              omega

/-- **A list of integers is decoded in its place.** -/
theorem stringToIntList_mid {t : List UInt8} (h0 : 0 ∉ t) (pre post : List UInt8) :
    ∃ t', t'.length = t.length ∧
      (uCxStringToIntList (pre ++ t ++ 0 :: post) pre.length).1 = pre ++ t' ++ 0 :: post ∧
      match bracketInts t with
      | none => (uCxStringToIntList (pre ++ t ++ 0 :: post) pre.length).2 = none
      | some vs => ∃ ints, (uCxStringToIntList (pre ++ t ++ 0 :: post) pre.length).2 = some ints ∧
          ∀ post', loadI16s (pre ++ t' ++ 0 :: post') (ints.pIntValues.getD 0) ints.length = vs := by
  have hstr := cstr_mid h0 pre post
  have hsame : ∀ bs : List UInt8, bs.length ≤ t.length → ∃ gap, (bs ++ gap).length = t.length ∧
      store (pre ++ t ++ 0 :: post) pre.length bs = pre ++ (bs ++ gap) ++ 0 :: post :=
    fun bs h => store_prefix pre t (0 :: post) bs h
  simp only [uCxStringToIntList, bracketInts, hstr]
  split
  · exact ⟨t, rfl, rfl, _, rfl, fun _ => rfl⟩
  · split
    · exact ⟨t, rfl, rfl, rfl⟩
    · next hshort =>
      have hdrop : (pre ++ t ++ 0 :: post).drop (pre.length + 1) = t.drop 1 ++ 0 :: post := by
        rw [← List.drop_drop, List.append_assoc, List.drop_left,
          List.drop_append_of_le_length (by omega)]
      obtain ⟨bs, hbs, hstore, hmatch⟩ :=
        intListLoop_eq (n := (t.drop 1).dropLast.count (ch ',')) (i := 0) (p := pre.length) hdrop
          (fun h => h0 (List.mem_of_mem_drop h)) (by omega)
      rw [List.length_drop] at hbs
      rw [Nat.mul_zero, Nat.add_zero pre.length] at hstore
      obtain ⟨gap, hgap, hmem⟩ := hsame bs (by omega)
      refine ⟨bs ++ gap, hgap, ?_⟩
      rw [hmem] at hstore
      generalize intListLoop pre.length ((t.drop 1).dropLast.count (ch ',')) 0 (pre ++ t ++ 0 :: post)
        (pre.length + 1) = r at hstore hmatch ⊢
      obtain ⟨m, pParse⟩ := r
      simp only at hstore hmatch ⊢
      subst hstore
      cases hints : commaInts ((t.drop 1).dropLast.count (ch ',')) (t.drop 1) with
      | none =>
        rw [hints] at hmatch
        simp only at hmatch
        subst hmatch
        exact ⟨rfl, rfl⟩
      | some r =>
        obtain ⟨vs, rest⟩ := r
        rw [hints] at hmatch
        obtain ⟨hvs, rfl, hrest, hfit, rfl⟩ := hmatch
        have hend : (pre ++ (vs.flatMap i16Bytes ++ gap) ++ 0 :: post).drop
            (pre.length + 1 + ((t.drop 1).length - rest.length)) = rest ++ 0 :: post := by
          rw [← hmem, drop_store_of_le _ _ _ _ (by omega)]
          exact drop_suffix hdrop hrest
        simp only [getD_eq_headD hend, true_and]
        by_cases hclose : rest.headD 0 = ch ']'
        · simp only [if_pos hclose]
          refine ⟨_, rfl, fun post' => ?_⟩
          have hload := loadI16s_i16Bytes vs pre (gap ++ 0 :: post')
          rw [hvs] at hload
          simp only [List.append_assoc] at hload ⊢
          exact hload
        · simp only [if_neg hclose]

/-! ## The cases of the parser -/

/-- What becomes of a parameter whose value is `v`: it is decoded within its place. -/
def InPlace (pre t post : List UInt8) (r : ParseParams.Result) (v : Option Arg) : Prop :=
  ∃ t', t'.length = t.length ∧
    match v with
    | none => r = .failed (pre ++ t' ++ 0 :: post)
    | some a => ∃ o, r = .done (pre ++ t' ++ 0 :: post) (some o) ∧
        ∀ post', o.value (pre ++ t' ++ 0 :: post') = a

/-- A conversion that leaves the token as it is, to a value that is not in the memory. -/
theorem InPlace.of_converted {α : Type} {pre t post : List UInt8} {f : α → Output} {g : α → Arg}
    (h : ∀ m a, (f a).value m = g a) (r : Option α) :
    InPlace pre t post (ParseParams.converted (pre ++ t ++ 0 :: post) (r.map f)) (r.map g) := by
  refine ⟨t, rfl, ?_⟩
  cases r with
  | none => rfl
  | some a => exact ⟨f a, rfl, fun _ => h _ a⟩

theorem takeWhile_terminated (s gap : List UInt8) :
    (s ++ 0 :: gap).takeWhile (· ≠ 0) = s.takeWhile (· ≠ 0) := by
  induction s with
  | nil => simp
  | cons c s ih =>
    simp only [List.cons_append, List.takeWhile_cons, ih]

theorem value_str {m s gap : List UInt8} {p : Nat} (h : m.drop p = s ++ 0 :: gap) :
    (Output.str p).value m = .str ⟨s.takeWhile (· ≠ 0), zero_notMem_takeWhile s⟩ := by
  simp only [Output.value, cstr, h, takeWhile_terminated]

/-- A string is read back with the length that has been stored. -/
theorem value_binStr {m s gap : List UInt8} {p : Nat} (h : m.drop p = s ++ 0 :: gap) :
    (Output.binStr p s.length).value m = .binStr s := by
  simp only [Output.value, load, h, List.take_left']

/-- A string behind `q`, up to the end of its token or to the terminator that has taken the place of the
last character. -/
theorem unescape_padded {body : List UInt8} (h0 : 0 ∉ body) (pre q pad post : List UInt8)
    (hpad : pad = [] ∨ pad = [0]) :
    ∃ t', t'.length = (q ++ body ++ pad).length ∧
      unescapeString (pre ++ (q ++ body ++ pad) ++ 0 :: post) (pre.length + q.length) =
        (pre ++ t' ++ 0 :: post, (unescaped body).length) ∧
      ∀ post', ∃ gap, (pre ++ t' ++ 0 :: post').drop (pre.length + q.length) =
        unescaped body ++ 0 :: gap := by
  -- what follows the terminator
  obtain ⟨behind, hbehind⟩ : ∃ behind, pad ++ 0 :: post = 0 :: behind := by
    rcases hpad with rfl | rfl
    · exact ⟨_, rfl⟩
    · exact ⟨_, rfl⟩
  obtain ⟨t, gap, hlen, hgap, heq⟩ := unescapeString_mid h0 (pre ++ q) behind
  have hm : pre ++ (q ++ body ++ pad) ++ 0 :: post = pre ++ q ++ body ++ 0 :: behind := by
    rw [← hbehind]
    simp only [List.append_assoc]
  refine ⟨q ++ t ++ pad, by simp [hlen], ?_, fun post' => ?_⟩
  · rw [hm, ← List.length_append, heq, ← hbehind]
    simp only [List.append_assoc]
  · have hsplit : ∃ rear, pad ++ 0 :: post' = 0 :: rear := by
      rcases hpad with rfl | rfl
      · exact ⟨_, rfl⟩
      · exact ⟨_, rfl⟩
    obtain ⟨rear, hrear⟩ := hsplit
    refine ⟨gap ++ rear, ?_⟩
    have hmem : pre ++ (q ++ t ++ pad) ++ 0 :: post' = (pre ++ q) ++ ((t ++ [0]) ++ rear) := by
      simp only [List.append_assoc, hrear, List.cons_append, List.nil_append]
    rw [hmem, ← List.length_append, List.drop_left, hgap, List.append_assoc, List.cons_append]

/-- An output that refers to a string that is unescaped in the place of the token. -/
theorem InPlace.of_unescaped {body : List UInt8} (h0 : 0 ∉ body) {pre q pad post t : List UInt8}
    (hpad : pad = [] ∨ pad = [0]) (ht : (q ++ body ++ pad).length = t.length) {o : Nat → Output} {v : Arg}
    (hv : ∀ m gap, m.drop (pre.length + q.length) = unescaped body ++ 0 :: gap →
      (o (unescaped body).length).value m = v) {r : ParseParams.Result}
    (hr : r = .done (unescapeString (pre ++ (q ++ body ++ pad) ++ 0 :: post) (pre.length + q.length)).1
      (some (o (unescapeString (pre ++ (q ++ body ++ pad) ++ 0 :: post) (pre.length + q.length)).2))) :
    InPlace pre t post r (some v) := by
  obtain ⟨t', hlen, heq, hvalue⟩ := unescape_padded h0 pre q pad post hpad
  rw [heq] at hr
  refine ⟨t', hlen.trans ht, o (unescaped body).length, hr, fun post' => ?_⟩
  obtain ⟨gap, hgap⟩ := hvalue post'
  exact hv _ gap hgap

/-- A token in quotes, or with another last character. -/
theorem quoted_cases {t : List UInt8} (h : t.headD 0 = ch '"') (ht : t ≠ [ch '"']) :
    ∃ body c, t = [ch '"'] ++ body ++ [c] := by
  match t, h, ht with
  | q :: cs, h, ht =>
    have hq : q = ch '"' := h
    subst hq
    rcases List.eq_nil_or_concat cs with rfl | ⟨body, c, rfl⟩
    · exact absurd rfl ht
    · exact ⟨body, c, by simp⟩

namespace ParseParams

variable (m : List UInt8) (p e : Nat)

theorem param_s_plain (h : m.getD p 0 ≠ ch '"') : param (ch 's') m p e =
    .done (unescapeString m p).1 (some (.str p)) := by
  simp only [param, h, if_false]
  rfl

theorem param_binStr_plain (h : m.getD p 0 ≠ ch '"') : param (ch '$') m p e =
    .done (unescapeString m p).1 (some (.binStr p (unescapeString m p).2)) := by
  simp only [param, h, if_false, false_and]
  rfl

theorem param_binStr_open (h : m.getD p 0 = ch '"') (h' : ¬(p + 1 < e ∧ m.getD (e - 1) 0 = ch '"')) :
    param (ch '$') m p e =
      .done (unescapeString m (p + 1)).1 (some (.binStr (p + 1) (unescapeString m (p + 1)).2)) := by
  simp only [param, h, if_true, true_and, if_neg h']
  rfl

end ParseParams

section
variable {t : List UInt8} (h0 : 0 ∉ t) (pre post : List UInt8)
include h0

theorem param_s_inPlace (ht : t ≠ [ch '"']) :
    InPlace pre t post (ParseParams.param (ch 's') (pre ++ t ++ 0 :: post) pre.length
      (pre.length + t.length)) (decode (ch 's') t) := by
  have hdrop : (pre ++ t ++ 0 :: post).drop pre.length = t ++ 0 :: post := by
    rw [List.append_assoc, List.drop_left]
  have hhead := getD_eq_headD hdrop
  have hdecode : decode (ch 's') t =
    some (.str ⟨(unescaped (stripQuotes t)).takeWhile (· ≠ 0), zero_notMem_takeWhile _⟩) := rfl
  rw [hdecode]
  by_cases hq : t.headD 0 = ch '"'
  · obtain ⟨body, c, rfl⟩ := quoted_cases hq ht
    have hbody : 0 ∉ body := fun h => h0 (by simp [h])
    have hset := set_last pre ([ch '"'] ++ body) c (0 :: post)
    have hm : pre ++ ([ch '"'] ++ body) ++ 0 :: 0 :: post =
        pre ++ ([ch '"'] ++ body ++ [0]) ++ 0 :: post := by simp
    have hstrip : stripQuotes ([ch '"'] ++ body ++ [c]) = body := by
      rw [stripQuotes, if_pos hq]
      simp
    simp only [hstrip]
    refine .of_unescaped (q := [ch '"']) (o := fun _ => .str (pre.length + 1)) hbody (.inr rfl) (by simp)
      (fun m gap h => value_str h) ?_
    rw [ParseParams.param_s _ _ _ (hhead.trans hq), hset, hm]
    rfl
  · have hstrip : stripQuotes t = t := by rw [stripQuotes, if_neg hq]
    simp only [hstrip]
    refine .of_unescaped (q := []) (o := fun _ => .str pre.length) h0 (.inl rfl) (by simp)
      (fun m gap h => value_str h) ?_
    rw [ParseParams.param_s_plain _ _ _ (by rwa [hhead]), List.append_nil]
    rfl

theorem param_binStr_inPlace (ht : t ≠ [ch '"']) :
    InPlace pre t post (ParseParams.param (ch '$') (pre ++ t ++ 0 :: post) pre.length
      (pre.length + t.length)) (decode (ch '$') t) := by
  have hdrop : (pre ++ t ++ 0 :: post).drop pre.length = t ++ 0 :: post := by
    rw [List.append_assoc, List.drop_left]
  have hhead := getD_eq_headD hdrop
  have hdecode : decode (ch '$') t = some (.binStr (unescaped (stripQuotesBin t))) := rfl
  rw [hdecode]
  by_cases hq : t.headD 0 = ch '"'
  · obtain ⟨body, c, rfl⟩ := quoted_cases hq ht
    have hlast := getD_last pre ([ch '"'] ++ body) c (0 :: post)
    have htail : ([ch '"'] ++ body ++ [c]).tail = body ++ [c] := rfl
    by_cases hc : c = ch '"'
    · have hbody : 0 ∉ body := fun h => h0 (by simp [h])
      have hset := set_last pre ([ch '"'] ++ body) c (0 :: post)
      have hm : pre ++ ([ch '"'] ++ body) ++ 0 :: 0 :: post =
          pre ++ ([ch '"'] ++ body ++ [0]) ++ 0 :: post := by simp
      have hstrip : stripQuotesBin ([ch '"'] ++ body ++ [c]) = body := by
        rw [stripQuotesBin, if_pos hq, htail, if_pos (by simp [hc]), List.dropLast_concat]
      have hpos : pre.length + 1 < pre.length + ([ch '"'] ++ body ++ [c]).length := by
        simp only [List.length_append, List.length_cons, List.length_nil]
        omega
      rw [hstrip]
      refine .of_unescaped (q := [ch '"']) (o := .binStr (pre.length + 1)) hbody (.inr rfl) (by simp)
        (fun m gap h => value_binStr h) ?_
      rw [ParseParams.param_binStr _ _ _ (hhead.trans hq) hpos (hlast.trans hc), hset, hm]
      rfl
    · have hrest : 0 ∉ body ++ [c] := fun h => h0 (by
        rw [List.append_assoc]
        exact List.mem_append_right _ h)
      have hstrip : stripQuotesBin ([ch '"'] ++ body ++ [c]) = body ++ [c] := by
        rw [stripQuotesBin, if_pos hq, htail, if_neg (by simp [hc])]
      have hm : [ch '"'] ++ (body ++ [c]) ++ [] = [ch '"'] ++ body ++ [c] := by simp
      rw [hstrip]
      refine .of_unescaped (q := [ch '"']) (o := .binStr (pre.length + 1)) hrest (.inl rfl) (by rw [hm])
        (fun m gap h => value_binStr h) ?_
      rw [ParseParams.param_binStr_open _ _ _ (hhead.trans hq) fun h => hc (hlast.symm.trans h.2), hm]
      rfl
  · have hstrip : stripQuotesBin t = t := by rw [stripQuotesBin, if_neg hq]
    rw [hstrip]
    refine .of_unescaped (q := []) (o := .binStr pre.length) h0 (.inl rfl) (by simp)
      (fun m gap h => value_binStr h) ?_
    rw [ParseParams.param_binStr_plain _ _ _ (by rwa [hhead]), List.append_nil]
    rfl

theorem param_l_inPlace : InPlace pre t post (ParseParams.param (ch 'l') (pre ++ t ++ 0 :: post) pre.length
    (pre.length + t.length)) (decode (ch 'l') t) := by
  obtain ⟨t', hlen, hmem, hmatch⟩ := stringToIntList_mid h0 pre post
  have hdecode : decode (ch 'l') t = (bracketInts t).map .intList := rfl
  rw [ParseParams.param_l, hmem, hdecode]
  refine ⟨t', hlen, ?_⟩
  cases hints : bracketInts t with
  | none =>
    rw [hints] at hmatch
    simp only at hmatch
    rw [hmatch]
    rfl
  | some vs =>
    rw [hints] at hmatch
    obtain ⟨ints, hints', hload⟩ := hmatch
    rw [hints']
    exact ⟨.intList ints, rfl, fun post' => congrArg Arg.intList (hload post')⟩

theorem param_h_inPlace : InPlace pre t post (ParseParams.param (ch 'h') (pre ++ t ++ 0 :: post) pre.length
    (pre.length + t.length)) (decode (ch 'h') t) := by
  have hstr := cstr_mid h0 pre post
  have hdecode : decode (ch 'h') t = (hexBytes t).map .bytes := rfl
  rw [hdecode]
  by_cases heven : t.length % 2 = 0
  · have hdrop : (pre ++ t ++ 0 :: post).drop (pre.length + 0 * 2) = t ++ 0 :: post := by
      rw [Nat.zero_mul, Nat.add_zero, List.append_assoc, List.drop_left]
    obtain ⟨bs, hbs, hstore, hall, hbytes⟩ := hexLoop_store (n := t.length / 2) hdrop (by omega)
    obtain ⟨gap, hgap, hmem⟩ := store_prefix pre t (0 :: post) bs (by omega)
    rw [Nat.add_zero, hmem] at hstore
    rw [ParseParams.param_h _ _ _ (by rw [hstr]; exact heven), hstr, hstore, hbytes]
    refine ⟨bs ++ gap, hgap, ?_⟩
    cases hok : (ParseParams.hexLoop pre.length (t.length / 2) 0 (pre ++ t ++ 0 :: post)).2 with
    | false => rfl
    | true =>
      refine ⟨.bytes pre.length (t.length / 2), rfl, fun post' => ?_⟩
      have hload := load_mid pre bs (gap ++ 0 :: post') pre.length (t.length / 2) rfl (hall hok).symm
      simp only [List.append_assoc] at hload ⊢
      simp only [Output.value, hload]
  · have hodd : ∀ t : List UInt8, t.length % 2 ≠ 0 → hexBytes t = none := by
      intro t
      fun_induction hexBytes t with
      | case1 => exact fun h => absurd rfl h
      | case2 => exact fun _ => rfl
      | case3 high low rest ih =>
        intro h
        rw [ih (by simp only [List.length_cons] at h; omega)]
        cases uCxAtUtilHexToByte high low <;> rfl
    rw [hodd t heven]
    refine ⟨t, rfl, ?_⟩
    simp only [ParseParams.param, hstr]
    simp only [heven, ne_eq, not_false_eq_true, if_true]
    rfl

/-- The character that tells the type of an address is one of its own unless it is empty. -/
theorem stringToBdAddress_mid (hne : t ≠ []) : ∃ bd, uCxStringToBdAddress t 0 = some bd ∧
    uCxStringToBdAddress (pre ++ t ++ 0 :: post) pre.length = some bd := by
  have hstr := cstr_mid h0 pre post
  have hself : cstr t 0 = t := by
    rw [cstr, List.drop_zero, ← List.append_nil (t.takeWhile _)]
    have h := cstr_mid h0 [] []
    rw [List.nil_append, cstr, List.length_nil, List.drop_zero, takeWhile_terminated] at h
    rw [h, List.append_nil]
  obtain ⟨body, c, rfl⟩ : ∃ body c, t = body ++ [c] :=
    ⟨_, _, (List.dropLast_concat_getLast hne).symm⟩
  have hlast : charBefore (pre ++ (body ++ [c]) ++ 0 :: post) pre.length (body ++ [c]).length =
      charBefore (body ++ [c]) 0 (body ++ [c]).length := by
    have halone := charBefore_mid [] body c []
    rw [List.nil_append, List.append_nil, List.length_nil] at halone
    rw [charBefore_mid, halone]
  obtain ⟨d, hd⟩ : ∃ d, charBefore (body ++ [c]) 0 (body ++ [c]).length = some d := by
    rw [charBefore, if_neg (by simp)]
    exact ⟨_, rfl⟩
  obtain ⟨bd, hbd⟩ : ∃ bd, uCxStringToBdAddress (body ++ [c]) 0 = some bd := by
    simp only [uCxStringToBdAddress, findBdAddressType, hself, hd, Option.map_some]
    exact ⟨_, rfl⟩
  refine ⟨bd, hbd, ?_⟩
  rw [← hbd]
  simp only [uCxStringToBdAddress, findBdAddressType, hstr, hself, hlast]

/-- **A parameter is decoded in its place**, unless it is an empty address with no character before it. -/
theorem param_inPlace {c : UInt8} (hc : assigns c = true) (ht : t ≠ [ch '"']) :
    (c = ch 'b' ∧ t = [] ∧
      ParseParams.param c (pre ++ t ++ 0 :: post) pre.length (pre.length + t.length) = .undefined) ∨
    InPlace pre t post (ParseParams.param c (pre ++ t ++ 0 :: post) pre.length (pre.length + t.length))
      (decode c t) := by
  have hstr := cstr_mid h0 pre post
  rcases assigns_iff.1 hc with rfl | rfl | rfl | rfl | rfl | rfl | rfl | rfl
  · right
    have h := @InPlace.of_converted _ pre t post Output.int Arg.int (fun _ _ => rfl)
      (if (t.headD 0 ≠ ch '-' ∧ !isdigit (t.headD 0)) ∨ (strtol 10 t).2 ≠ [] then none
        else some (Int32.ofInt (strtol 10 t).1))
    have hdecode : decode (ch 'd') t =
        if (t.headD 0 ≠ ch '-' ∧ !isdigit (t.headD 0)) ∨ (strtol 10 t).2 ≠ [] then none
        else some (.int (Int32.ofInt (strtol 10 t).1)) := rfl
    rw [ParseParams.param_d, hstr, hdecode]
    split at h
    · next hbad => rwa [if_pos hbad, if_pos hbad]
    · next hok => rwa [if_neg hok, if_neg hok]
  · exact .inr (param_s_inPlace h0 pre post ht)
  · exact .inr (param_binStr_inPlace h0 pre post ht)
  · right
    rw [ParseParams.param_i, hstr]
    exact .of_converted (fun _ _ => rfl) (uCxStringToIpAddress t)
  · right
    rw [ParseParams.param_m, hstr]
    exact .of_converted (fun _ _ => rfl) (uCxStringToMacAddress t)
  · by_cases hne : t = []
    · subst hne
      cases hbd : uCxStringToBdAddress (pre ++ [] ++ 0 :: post) pre.length with
      | none =>
        refine .inl ⟨rfl, rfl, ?_⟩
        simp only [ParseParams.param, hbd]
        rfl
      | some bd =>
        right
        have hnone : bd = none := by
          simp only [uCxStringToBdAddress, hstr] at hbd
          obtain ⟨type?, -, rfl⟩ := Option.map_eq_some_iff.1 hbd
          cases type? <;> rfl
        subst hnone
        rw [ParseParams.param_b _ _ _ hbd]
        exact ⟨[], rfl, rfl⟩
    · right
      obtain ⟨bd, hself, hbd⟩ := stringToBdAddress_mid h0 pre post hne
      have hdecode : decode (ch 'b') t = bd.map .btLeAddress := by
        have h : decode (ch 'b') t = (uCxStringToBdAddress t 0).join.map .btLeAddress := rfl
        rw [h, hself]
        rfl
      rw [ParseParams.param_b _ _ _ hbd, hdecode]
      exact .of_converted (fun _ _ => rfl) bd
  · exact .inr (param_l_inPlace h0 pre post)
  · exact .inr (param_h_inPlace h0 pre post)

end
