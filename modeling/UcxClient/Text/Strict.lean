import UcxClient.Text.TokenWise

/-!
# Which tokens a format character takes

`ParsedAs line i c v`: in some call the token number `i` of the line is parsed with the format character `c`,
to the value `v`. By `parsedAs_iff` this is a fact about the token alone.

Integers (`d`): a token is taken only if it is a numeral (`Denotes`), but its value is that of an `int32_t`
only if the number is in its range (`integers_exact_iff`). Strings (`s` and `$`): a token in quotes ends
with its closing quote, or there is text behind it (`TextBehind`), which `s` takes for a part of the string
all the same (`quotes_strict_iff`).
-/

open ByteMem

/-! ## Tokens of a line -/

/-- A token is closed unless it is malformed, which only the last one can be. -/
theorem tokens_spec {line : List UInt8} {i : Nat} {tok : Token} (h : (tokens line)[i]? = some tok) :
    (tok.malformed = false → Closed tok.chars) ∧
    (tok.malformed = true →
      uCxAtUtilFindParamEnd tok.chars = none ∧ i + 1 = (tokens line).length) := by
  induction hn : line.length using Nat.strongRecOn generalizing line i with
  | ind n ih =>
    rcases tokens_cases line with ⟨hc, ht⟩ | ⟨hend, ht⟩ | ⟨t, rest, rfl, hc, ht⟩
    · rw [ht] at h
      obtain ⟨hi, rfl⟩ := List.getElem?_eq_some_iff.1 h
      simp only [List.length_singleton, Nat.lt_one_iff] at hi
      subst hi
      exact ⟨fun _ => hc, nofun⟩
    · rw [ht] at h ⊢
      obtain ⟨hi, rfl⟩ := List.getElem?_eq_some_iff.1 h
      simp only [List.length_singleton, Nat.lt_one_iff] at hi
      subst hi
      exact ⟨nofun, fun _ => ⟨hend, rfl⟩⟩
    · rw [ht] at h ⊢
      cases i with
      | zero =>
        cases h
        exact ⟨fun _ => hc, nofun⟩
      | succ i =>
        rw [List.getElem?_cons_succ] at h
        have hlen : rest.length < n := by
          simp only [List.length_append, List.length_cons] at hn
          omega
        obtain ⟨h1, h2⟩ := ih _ hlen h rfl
        refine ⟨h1, fun hm => ⟨(h2 hm).1, ?_⟩⟩
        rw [List.length_cons, ← (h2 hm).2]

theorem malformed_of_open {line : List UInt8} {i : Nat} {tok : Token}
    (h : (tokens line)[i]? = some tok) (hc : Closed tok.chars) : tok.malformed = false := by
  cases hm : tok.malformed with
  | false => rfl
  | true =>
    have hend := ((tokens_spec h).2 hm).1
    rw [findParamEnd_end hc] at hend
    cases hend

/-! ## One parameter of a call -/

/-- Token number `i` of the line is parsed with `c` in some call, to the value `v`. -/
def ParsedAs (line : List UInt8) (i : Nat) (c : UInt8) (v : Arg) : Prop :=
  ∃ pParamFmt pre post r, pParamFmt[i]? = some c ∧
    uCxAtUtilParseParamsVaList (pre ++ line ++ 0 :: post) pre.length pParamFmt = some r ∧
    (0 ≤ r.ret ∨ r.ret < -((i + 1 : Nat) : Int)) ∧
    (r.outputs.map (Output.value r.m))[((pParamFmt.take i).filter assigns).length]? = some v

/-- The value of one of the parameters is behind those of the parameters before it. -/
theorem values_getElem {ps : List (UInt8 × Token)} (h : ∀ p ∈ ps, refused p = false) {i : Nat}
    {p : UInt8 × Token} (hp : ps[i]? = some p) (ha : assigns p.1 = true) :
    (values ps)[(((ps.map Prod.fst).take i).filter assigns).length]? = decode p.1 p.2.chars := by
  have hsome : ∀ q ∈ ps, assigns q.1 = true → ∃ a, decode q.1 q.2.chars = some a := by
    intro q hq haq
    have hr := h q hq
    rw [refused, haq] at hr
    cases hd : decode q.1 q.2.chars with
    | none => simp [hd] at hr
    | some a => exact ⟨a, rfl⟩
  induction ps generalizing i with
  | nil => cases hp
  | cons q ps ih =>
    cases i with
    | zero =>
      cases hp
      obtain ⟨a, hd⟩ := hsome p List.mem_cons_self ha
      rw [values, List.filterMap_cons, hd]
      rfl
    | succ i =>
      have hih := ih (fun r hr => h r (List.mem_cons_of_mem _ hr)) hp
        fun r hr => hsome r (List.mem_cons_of_mem _ hr)
      rw [List.map_cons, List.take_succ_cons, List.filter_cons]
      cases haq : assigns q.1 with
      | true =>
        obtain ⟨a, hd⟩ := hsome q List.mem_cons_self haq
        rw [if_pos rfl, values, List.filterMap_cons, hd, List.length_cons, List.getElem?_cons_succ]
        exact hih
      | false =>
        rw [if_neg (by simp), values, List.filterMap_cons, decode_of_not_assigns haq]
        exact hih

/-- Parameters before the first one that is refused. -/
theorem getElem_accepted {ps : List (UInt8 × Token)} {i : Nat} {p : UInt8 × Token}
    (hp : ps[i]? = some p) (hret : 0 ≤ returned 0 ps ∨ returned 0 ps < -((i + 1 : Nat) : Int)) :
    (accepted ps)[i]? = some p ∧ (∀ q ∈ accepted ps, refused q = false) ∧
      ((accepted ps).map Prod.fst).take i = (ps.map Prod.fst).take i := by
  cases hfind : ps.findIdx? refused with
  | none =>
    obtain ⟨hacc, hall⟩ := accepted_of_none hfind
    rw [hacc]
    exact ⟨hp, hall, rfl⟩
  | some j =>
    obtain ⟨hacc, hall⟩ := accepted_of_some hfind
    simp only [returned, hfind] at hret
    have hij : i < j := by omega
    rw [hacc]
    refine ⟨by rw [List.getElem?_take_of_lt hij, hp], hall, ?_⟩
    rw [List.map_take, List.take_take, Nat.min_eq_left (by omega)]

theorem getElem?_zip_some {fmt : List UInt8} {ts : List Token} {i : Nat} {c : UInt8} {tok : Token}
    (hc : fmt[i]? = some c) (ht : ts[i]? = some tok) : (fmt.zip ts)[i]? = some (c, tok) := by
  rw [List.getElem?_zip_eq_some]
  exact ⟨hc, ht⟩

theorem take_map_fst_zip {fmt : List UInt8} {ts : List Token} {i : Nat} (h : i ≤ ts.length) :
    ((fmt.zip ts).map Prod.fst).take i = fmt.take i := by
  induction fmt generalizing ts i with
  | nil => simp
  | cons c fmt ih =>
    cases ts with
    | nil =>
      obtain rfl := Nat.le_zero.1 h
      rfl
    | cons t ts =>
      cases i with
      | zero => rfl
      | succ i =>
        rw [List.zip_cons_cons, List.map_cons, List.take_succ_cons, List.take_succ_cons,
          ih (Nat.le_of_succ_le_succ h)]

/-- A token that is taken, when those before it are ignored. -/
theorem parse_one {line : List UInt8} (h0 : 0 ∉ line) {i : Nat} {tok : Token}
    (htok : (tokens line)[i]? = some tok) {c : UInt8} (ha : assigns c = true) {v : Arg}
    (hm : tok.malformed = false) (hd : decode c tok.chars = some v) :
    ∃ r, uCxAtUtilParseParamsVaList ([] ++ line ++ 0 :: []) 0 (List.replicate i (ch '-') ++ [c]) = some r ∧
      0 ≤ r.ret ∧ (r.outputs.map (Output.value r.m))[
        (((List.replicate i (ch '-') ++ [c]).take i).filter assigns).length]? = some v := by
  have hi : i < (tokens line).length := (List.getElem?_eq_some_iff.1 htok).1
  have hc : (List.replicate i (ch '-') ++ [c])[i]? = some c := by simp
  have hp := getElem?_zip_some hc htok
  have hnone : ∀ p ∈ (List.replicate i (ch '-') ++ [c]).zip (tokens line), refused p = false := by
    intro p hmem
    obtain ⟨j, hj⟩ := List.getElem?_of_mem hmem
    obtain ⟨hjc, hjt⟩ := List.getElem?_zip_eq_some.1 hj
    have hji : j < i + 1 := by
      have := (List.getElem?_eq_some_iff.1 hjc).1
      simpa using this
    by_cases hje : j = i
    · subst hje
      rw [hc] at hjc
      rw [htok] at hjt
      cases hjc
      cases hjt
      simp [refused, hm, hd]
    · have hjm : p.2.malformed = false := by
        cases hpm : p.2.malformed with
        | false => rfl
        | true =>
          have := ((tokens_spec hjt).2 hpm).2
          omega
      have hjc' : p.1 = ch '-' := by
        rw [List.getElem?_append_left (by simp; omega), List.getElem?_replicate,
          if_pos (by omega)] at hjc
        exact (Option.some.inj hjc).symm
      rw [refused, hjm, hjc']
      rfl
  have hfind : ((List.replicate i (ch '-') ++ [c]).zip (tokens line)).findIdx? refused = none := by
    rw [List.findIdx?_eq_none_iff]
    exact hnone
  rcases loop_tokens (List.replicate i (ch '-') ++ [c]) h0 [] [] 0 [] with ⟨-, tok', hmem, htok'⟩ |
    ⟨line', new, -, hloop, hnew⟩
  · have hr := hnone _ (List.mem_of_mem_take hmem)
    rw [refused_empty htok'] at hr
    cases hr
  · refine ⟨_, hloop, ?_, ?_⟩
    · simp only [returned, hfind]
      omega
    · have hval := values_getElem hnone hp ha
      rw [take_map_fst_zip (by omega)] at hval
      rw [(accepted_of_none hfind).1] at hnew
      simp only [List.nil_append] at hnew ⊢
      rw [hnew, hval, hd]

/-- **What a token is parsed as** is its value. -/
theorem parsedAs_iff {line : List UInt8} (h0 : 0 ∉ line) {i : Nat} {tok : Token}
    (htok : (tokens line)[i]? = some tok) {c : UInt8} (ha : assigns c = true) (v : Arg) :
    ParsedAs line i c v ↔ tok.malformed = false ∧ decode c tok.chars = some v := by
  have hi : i < (tokens line).length := (List.getElem?_eq_some_iff.1 htok).1
  constructor
  · rintro ⟨fmt, pre, post, r, hc, hparse, hret, hv⟩
    have hp := getElem?_zip_some hc htok
    rcases loop_tokens fmt h0 pre post 0 [] with ⟨hloop, -⟩ | ⟨line', new, -, hloop, hnew⟩
    · rw [uCxAtUtilParseParamsVaList, hloop] at hparse
      cases hparse
    · rw [uCxAtUtilParseParamsVaList, hloop] at hparse
      cases hparse
      obtain ⟨hacc, hall, htake⟩ := getElem_accepted hp hret
      have hval := values_getElem hall hacc ha
      rw [htake, take_map_fst_zip (by omega)] at hval
      simp only [List.nil_append, hnew, hval] at hv
      have hr := hall _ (List.mem_of_getElem? hacc)
      simp only [refused, Bool.or_eq_false_iff] at hr
      exact ⟨hr.1, hv⟩
  · rintro ⟨hm, hd⟩
    obtain ⟨r, hparse, hret, hv⟩ := parse_one h0 htok ha hm hd
    exact ⟨_, [], [], r, by simp, hparse, .inl hret, hv⟩

/-! ## Integers -/

/-- A decimal numeral and its number. -/
inductive Denotes : List UInt8 → Int → Prop
  | unsigned {ds : List UInt8} : ds ≠ [] → (∀ d ∈ ds, isdigit d = true) → Denotes ds (ofDigits 10 0 ds)
  | negative {ds : List UInt8} :
      ds ≠ [] → (∀ d ∈ ds, isdigit d = true) → Denotes (ch '-' :: ds) (-(ofDigits 10 0 ds : Nat))

/-- The range of an `int32_t`. -/
def InInt32 (n : Int) : Prop := -(2 ^ 31) ≤ n ∧ n < 2 ^ 31

theorem Denotes.numeral {g : List UInt8} {n : Int} (h : Denotes g n) : Numeral 10 g n := by
  cases h with
  | unsigned hne hds => exact numeral_of_digits hne fun c hc => digitVal_lt_ten (hds c hc)
  | negative hne hds => exact numeral_of_minus hne fun c hc => digitVal_lt_ten (hds c hc)

/-- The number of a numeral, clamped to the range of a `long`. -/
theorem Denotes.strtol_eq {t : List UInt8} {n : Int} (h : Denotes t n) : strtol 10 t = (clampLong n, []) :=
  h.numeral.strtol_eq (by decide)

/-- What `strtol` takes beyond a numeral starts with a blank or a plus sign. -/
theorem Numeral.denotes {g : List UInt8} {n : Int} (h : Numeral 10 g n) :
    Denotes g n ∨ isspace (g.headD 0) = true ∨ g.headD 0 = ch '+' := by
  cases hspace : isspace (g.headD 0) with
  | true => exact .inr (.inl rfl)
  | false =>
    obtain ⟨sign, ds, rfl, hsign, hne, hds, rfl⟩ := h.decimal hspace
    rcases hsign with rfl | rfl | rfl
    · exact .inl (.unsigned hne hds)
    · exact .inr (.inr rfl)
    · exact .inl (.negative hne hds)

/-- What starts with a digit or a minus sign and is read to its end is a numeral. -/
theorem denotes_of_strtol {t : List UInt8} (hhead : t.headD 0 = ch '-' ∨ isdigit (t.headD 0) = true)
    (hend : (strtol 10 t).2 = []) : ∃ n, Denotes t n ∧ (strtol 10 t).1 = clampLong n := by
  have hchar : isspace (t.headD 0) = false ∧ t.headD 0 ≠ ch '+' := by
    rcases hhead with hminus | hdigit
    · rw [hminus]
      decide
    · exact ⟨(not_space_of_isdigit _ hdigit).1, (not_space_of_isdigit _ hdigit).2.2⟩
  rcases hstrtol : strtol 10 t with ⟨v, rest⟩
  obtain rfl : rest = [] := by rwa [hstrtol] at hend
  rcases strtol_numeral hstrtol with ⟨-, rfl⟩ | ⟨g, n, rfl, hnum, rfl⟩
  · rcases hhead with h | h <;> exact absurd h (by decide)
  · rw [List.append_nil] at hchar ⊢
    rcases hnum.denotes with hden | hspace | hplus
    · exact ⟨n, hden, rfl⟩
    · rw [hchar.1] at hspace
      cases hspace
    · exact absurd hplus hchar.2

/-- **What `d` takes is a numeral**; it stores the low 32 bits of what `strtol` returns. -/
theorem decode_d {t : List UInt8} {v : Arg} : decode (ch 'd') t = some v ↔
    ∃ n, Denotes t n ∧ v = .int (Int32.ofInt (clampLong n)) := by
  have hdecode : decode (ch 'd') t =
      if (t.headD 0 ≠ ch '-' ∧ !isdigit (t.headD 0)) ∨ (strtol 10 t).2 ≠ [] then none
      else some (.int (Int32.ofInt (strtol 10 t).1)) := rfl
  rw [hdecode]
  constructor
  · intro h
    split at h
    · cases h
    · next hok =>
      cases h
      simp only [not_or, not_and, Bool.not_eq_true', Bool.not_eq_false, ne_eq, Decidable.not_not] at hok
      obtain ⟨n, hn, hv⟩ := denotes_of_strtol (Decidable.or_iff_not_imp_left.2 hok.1) hok.2
      exact ⟨n, hn, by rw [hv]⟩
  · rintro ⟨n, hn, rfl⟩
    have hhead : t.headD 0 = ch '-' ∨ isdigit (t.headD 0) = true := by
      cases hn with
      | @unsigned ds hne hds =>
        obtain ⟨c, ds, rfl⟩ := List.exists_cons_of_ne_nil hne
        exact .inr (hds c List.mem_cons_self)
      | negative => exact .inl rfl
    rw [if_neg, hn.strtol_eq]
    rw [hn.strtol_eq]
    rintro (⟨h1, h2⟩ | h)
    · rcases hhead with h | h
      · exact h1 h
      · rw [h] at h2
        cases h2
    · exact h rfl

theorem clampLong_of_inInt32 {n : Int} (h : InInt32 n) : (Int32.ofInt (clampLong n)).toInt = n := by
  obtain ⟨h1, h2⟩ := h
  have hclamp : clampLong n = n := clampLong_eq (by omega) (by omega)
  rw [hclamp, Int32.toInt_ofInt_of_le h1 h2]

theorem Denotes.closed {t : List UInt8} {n : Int} (h : Denotes t n) : Closed t := by
  have hplain : ∀ c, isdigit c = true → isPlain c = true := fun c hc =>
    isPlain_iff.2 ⟨ne_of_class hc rfl, ne_of_class hc rfl, ne_of_class hc rfl, ne_of_class hc rfl,
      ne_of_class hc rfl⟩
  refine .plain fun c hc => ?_
  cases h with
  | unsigned _ hds => exact hplain c (hds c hc)
  | negative _ hds =>
    rcases List.mem_cons.1 hc with rfl | hc
    · rfl
    · exact hplain c (hds c hc)

/-- What `d` takes for token number `i` is a numeral, and the integer is its number; a number out of
range is an error. -/
def IntegersExact (line : List UInt8) (i : Nat) (t : List UInt8) : Prop :=
  (∀ k : Int32, ParsedAs line i (ch 'd') (.int k) → Denotes t k.toInt) ∧
  ((∃ n, Denotes t n ∧ ¬InInt32 n) → ∀ pParamFmt pre post r, pParamFmt[i]? = some (ch 'd') →
    uCxAtUtilParseParamsVaList (pre ++ line ++ 0 :: post) pre.length pParamFmt = some r → r.ret < 0)

/-- **Integers are exact or rejected** unless the token is the numeral of a number out of range. -/
theorem integers_exact_iff {line : List UInt8} (h0 : 0 ∉ line) {i : Nat} {tok : Token}
    (htok : (tokens line)[i]? = some tok) :
    IntegersExact line i tok.chars ↔ ¬∃ n, Denotes tok.chars n ∧ ¬InInt32 n := by
  constructor
  · rintro ⟨-, hreject⟩ ⟨n, hn, hout⟩
    have hm := malformed_of_open htok hn.closed
    obtain ⟨r, hparse, hret, -⟩ := parse_one h0 htok (c := ch 'd') rfl hm (decode_d.2 ⟨n, hn, rfl⟩)
    have hneg := hreject ⟨n, hn, hout⟩ _ [] [] r (by simp) hparse
    omega
  · intro hin
    refine ⟨fun k hk => ?_, fun hout => absurd hout hin⟩
    obtain ⟨n, hn, hv⟩ := decode_d.1 ((parsedAs_iff h0 htok rfl _).1 hk).2
    have hrange : InInt32 n := Classical.byContradiction fun h => hin ⟨n, hn, h⟩
    cases hv
    rw [clampLong_of_inInt32 hrange]
    exact hn

theorem integers_exact_iff_int32_max :
    IntegersExact (text "2147483647") 0 (text "2147483647") ↔
      ¬∃ n, Denotes (text "2147483647") n ∧ ¬InInt32 n :=
  have htok : (tokens (text "2147483647"))[0]? = some ⟨text "2147483647", false⟩ := by decide +kernel
  integers_exact_iff (by decide) htok

/-- The numeral of 2^32 is taken for 0. -/
theorem large_integer_accepted : Denotes (text "4294967296") (2 ^ 32) ∧
    ∃ r, uCxAtUtilParseParamsVaList (text "4294967296" ++ [0]) 0 (text "d") = some r ∧ r.ret = 1 ∧
      r.outputs = [.int 0] :=
  ⟨Denotes.unsigned (by decide) (fun d hd => List.all_eq_true.1
      (show (text "4294967296").all isdigit = true by decide) d hd),
    ⟨1, text "4294967296" ++ [0], [.int 0]⟩, rfl, rfl, rfl⟩

/-! ## Strings in quotes -/

/-- The characters between quotes: a quote only with a backslash before it. -/
inductive StringBody : List UInt8 → Prop
  | nil : StringBody []
  | plain {c : UInt8} {body : List UInt8} :
      c ≠ ch '"' → c ≠ ch '\\' → StringBody body → StringBody (c :: body)
  | escaped {body : List UInt8} (c : UInt8) : StringBody body → StringBody (ch '\\' :: c :: body)

/-- The last character is the quote that closes the first one. -/
def EndsQuoted (t : List UInt8) : Prop := ∃ body, StringBody body ∧ t = ch '"' :: body ++ [ch '"']

/-- Something follows the quote that closes the first one. -/
def TextBehind (t : List UInt8) : Prop :=
  ∃ body rest, StringBody body ∧ rest ≠ [] ∧ t = ch '"' :: body ++ ch '"' :: rest

/-- The closing quote of a string is where the loop is outside of it for the first time. -/
theorem stringBody_of_passes {s : List UInt8} {st : Scan} (h : (⟨true, false, false⟩ : Scan).Passes s st)
    (hst : st.insideString = false) : ∃ body rest, StringBody body ∧ s = body ++ ch '"' :: rest := by
  induction hn : s.length using Nat.strongRecOn generalizing s with
  | ind n ih =>
    cases s with
    | nil =>
      cases h
      cases hst
    | cons c s =>
      simp only [List.length_cons] at hn
      simp only [Scan.Passes, List.foldlM_cons] at h
      obtain ⟨st₁, hstep, hrest⟩ := Option.bind_eq_some_iff.1 h
      by_cases hq : c = ch '"'
      · subst hq
        exact ⟨[], s, .nil, rfl⟩
      · by_cases hb : c = ch '\\'
        · subst hb
          cases hstep
          cases s with
          | nil =>
            cases hrest
            cases hst
          | cons d s =>
            simp only [List.length_cons] at hn
            simp only [List.foldlM_cons] at hrest
            obtain ⟨body, rest, hbody, rfl⟩ := ih s.length (by omega) hrest rfl
            exact ⟨_, rest, .escaped d hbody, rfl⟩
        · have hsame : (⟨true, false, false⟩ : Scan).step c = some ⟨true, false, false⟩ := by
            simp [Scan.step, hq, hb]
          rw [hsame] at hstep
          cases hstep
          obtain ⟨body, rest, hbody, rfl⟩ := ih s.length (by omega) hrest rfl
          exact ⟨_, rest, .plain hq hb hbody, rfl⟩

theorem quoted_split {t : List UInt8} (hc : Closed t) (hq : t.headD 0 = ch '"') :
    EndsQuoted t ∨ TextBehind t := by
  cases t with
  | nil => exact absurd hq (by decide)
  | cons c s =>
    have hq' : c = ch '"' := hq
    subst hq'
    have hpass : (⟨true, false, false⟩ : Scan).Passes s Scan.init := hc
    obtain ⟨body, rest, hbody, rfl⟩ := stringBody_of_passes hpass rfl
    by_cases hrest : rest = []
    · subst hrest
      exact .inl ⟨body, hbody, rfl⟩
    · exact .inr ⟨body, rest, hbody, hrest, rfl⟩

/-- There is one closing quote. -/
theorem StringBody.closing_unique {body body' rest rest' : List UInt8} (h : StringBody body)
    (h' : StringBody body') (heq : body ++ ch '"' :: rest = body' ++ ch '"' :: rest') : rest = rest' := by
  have hne : ch '\\' ≠ ch '"' := by decide
  induction h generalizing body' with
  | nil =>
    cases h' with
    | nil => exact (List.cons.inj heq).2
    | plain hc => exact absurd (List.cons.inj heq).1.symm hc
    | escaped c => exact absurd (List.cons.inj heq).1.symm hne
  | plain hc hb _ ih =>
    cases h' with
    | nil => exact absurd (List.cons.inj heq).1 hc
    | plain _ _ hbody' => exact ih hbody' (List.cons.inj heq).2
    | escaped c => exact absurd (List.cons.inj heq).1 hb
  | escaped c _ ih =>
    cases h' with
    | nil => exact absurd (List.cons.inj heq).1 hne
    | plain _ hb' => exact absurd (List.cons.inj heq).1.symm hb'
    | escaped d hbody' => exact ih hbody' (List.cons.inj (List.cons.inj heq).2).2

theorem not_textBehind {t : List UInt8} (h : EndsQuoted t) : ¬TextBehind t := by
  intro ⟨body, rest, hbody, hrest, heq⟩
  obtain ⟨body', hbody', rfl⟩ := h
  exact hrest (hbody'.closing_unique hbody (List.cons.inj heq).2).symm

/-- A token that ends with its closing quote stands for the same string in both formats. -/
theorem stripQuotes_of_endsQuoted {t : List UInt8} (h : EndsQuoted t) :
    stripQuotesBin t = stripQuotes t := by
  obtain ⟨body, -, rfl⟩ := h
  have hq : (ch '"' :: body ++ [ch '"']).headD 0 = ch '"' := rfl
  have htail : (ch '"' :: body ++ [ch '"']).tail = body ++ [ch '"'] := rfl
  rw [stripQuotesBin, stripQuotes, if_pos hq, if_pos hq, htail, if_pos (by simp)]

/-- What `s` takes for token number `i` ends with its closing quote, and `$` takes the same string. -/
def QuotesStrict (line : List UInt8) (i : Nat) (t : List UInt8) : Prop :=
  (∀ v, ParsedAs line i (ch 's') v → EndsQuoted t) ∧
  ∀ s b, ParsedAs line i (ch 's') (.str s) → ParsedAs line i (ch '$') (.binStr b) →
    s.chars = b.takeWhile (· ≠ 0)

/-- **Strings in quotes are parsed strictly** unless there is text behind the closing quote of a token
that is not malformed. -/
theorem quotes_strict_iff {line : List UInt8} (h0 : 0 ∉ line) {i : Nat} {tok : Token}
    (htok : (tokens line)[i]? = some tok) (hq : tok.chars.headD 0 = ch '"') :
    QuotesStrict line i tok.chars ↔ ¬(tok.malformed = false ∧ TextBehind tok.chars) := by
  constructor
  · rintro ⟨hends, -⟩ ⟨hm, htext⟩
    have hparsed := (parsedAs_iff h0 htok (c := ch 's') rfl _).2 ⟨hm, rfl⟩
    exact not_textBehind (hends _ hparsed) htext
  · intro hnone
    have hends : ∀ v, ParsedAs line i (ch 's') v → EndsQuoted tok.chars := by
      intro v hv
      have hm := ((parsedAs_iff h0 htok rfl v).1 hv).1
      rcases quoted_split ((tokens_spec htok).1 hm) hq with h | h
      · exact h
      · exact absurd ⟨hm, h⟩ hnone
    refine ⟨hends, fun s b hs hb => ?_⟩
    have hd := ((parsedAs_iff h0 htok rfl _).1 hs).2
    have hdb := ((parsedAs_iff h0 htok rfl _).1 hb).2
    have hsame := stripQuotes_of_endsQuoted (hends _ hs)
    have hstr : decode (ch 's') tok.chars = some (.str ⟨(unescaped (stripQuotes tok.chars)).takeWhile
      (· ≠ 0), zero_notMem_takeWhile _⟩) := rfl
    have hbin : decode (ch '$') tok.chars = some (.binStr (unescaped (stripQuotesBin tok.chars))) := rfl
    rw [hstr] at hd
    rw [hbin, hsame] at hdb
    cases hd
    cases hdb
    rfl

theorem quotes_strict_iff_escaped :
    QuotesStrict (text "\"a\\\"\"") 0 (text "\"a\\\"\"") ↔
      ¬(false = false ∧ TextBehind (text "\"a\\\"\"")) :=
  have htok : (tokens (text "\"a\\\"\""))[0]? = some ⟨text "\"a\\\"\"", false⟩ := by decide +kernel
  quotes_strict_iff (by decide) htok (by decide)

/-- The `x` behind the closing quote is dropped, and the quote becomes a part of the string. -/
theorem text_behind_quote_accepted :
    ∃ r, uCxAtUtilParseParamsVaList (text "\"abc\"x" ++ [0]) 0 (text "s") = some r ∧ r.ret = 1 ∧
      r.outputs.map (Output.value r.m) = [.str ⟨text "abc\"", by decide⟩] ∧
      ¬EndsQuoted (text "\"abc\"x") := by
  have hbehind : TextBehind (text "\"abc\"x") := by
    refine ⟨text "abc", text "x", ?_, by decide, rfl⟩
    exact .plain (by decide) (by decide) (.plain (by decide) (by decide)
      (.plain (by decide) (by decide) .nil))
  exact ⟨⟨1, text "\"abc\"" ++ [0, 0], [.str 1]⟩, rfl, rfl, rfl, fun h => not_textBehind h hbehind⟩
