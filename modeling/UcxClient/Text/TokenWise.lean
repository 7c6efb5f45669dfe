import UcxClient.Text.Decode
import UcxClient.Text.Reference

/-!
# Parsing is token by token

`parse_tokens`: `uCxAtUtilParseParamsVaList` works through the format and the reference tokens of the line in
step. It stops at the first token that is malformed or that its format character rejects (`refused`) and
returns its number negated, or it returns how many it has decoded; its outputs read as the values of the
tokens before that, each decoded on its own. That one token is decoded in the memory of the line does not
change how the next one is split (`loop_tokens`).

`success_assigns_iff`: so a line with fewer tokens than the format has outputs left is a success that leaves
outputs unassigned.
-/

open ByteMem

/-! ## A parameter -/

/-- The token is malformed, or its format character rejects it. -/
def refused (p : UInt8 × Token) : Bool :=
  p.2.malformed || (assigns p.1 && (decode p.1 p.2.chars).isNone)

theorem cases_of_not_assigns {c : UInt8} (h : assigns c = false) : c ≠ ch 'd' ∧ c ≠ ch 's' ∧
    c ≠ ch '$' ∧ c ≠ ch 'i' ∧ c ≠ ch 'm' ∧ c ≠ ch 'b' ∧ c ≠ ch 'l' ∧ c ≠ ch 'h' := by
  have hnot := mt assigns_iff.2 (Bool.eq_false_iff.1 h)
  simpa only [not_or] using hnot

theorem decode_of_not_assigns {c : UInt8} (h : assigns c = false) (t : List UInt8) :
    decode c t = none := by
  obtain ⟨h1, h2, h3, h4, h5, h6, h7, h8⟩ := cases_of_not_assigns h
  simp only [decode, h1, h2, h3, h4, h5, h6, h7, h8, if_false]

theorem param_of_not_assigns {c : UInt8} (h : assigns c = false) (m : List UInt8) (p e : Nat) :
    ParseParams.param c m p e = .done m none := by
  obtain ⟨h1, h2, h3, h4, h5, h6, h7, h8⟩ := cases_of_not_assigns h
  simp only [ParseParams.param, h1, h2, h3, h4, h5, h6, h7, h8, if_false]

theorem Closed.ne_quote {t : List UInt8} (h : Closed t) : t ≠ [ch '"'] := by
  rintro rfl
  exact absurd (show Scan.init.step (ch '"') = some Scan.init from by
    simpa [Closed, Scan.Passes] using h) (by decide)

/-- What the case of a format character does with a token. -/
theorem param_token {t : List UInt8} (h0 : 0 ∉ t) (hc : Closed t) (c : UInt8) (pre post : List UInt8) :
    (c = ch 'b' ∧ t = [] ∧
      ParseParams.param c (pre ++ t ++ 0 :: post) pre.length (pre.length + t.length) = .undefined) ∨
    (refused (c, ⟨t, false⟩) = true ∧ ∃ t', t'.length = t.length ∧
      ParseParams.param c (pre ++ t ++ 0 :: post) pre.length (pre.length + t.length) =
        .failed (pre ++ t' ++ 0 :: post)) ∨
    (refused (c, ⟨t, false⟩) = false ∧ ∃ t' output, t'.length = t.length ∧
      ParseParams.param c (pre ++ t ++ 0 :: post) pre.length (pre.length + t.length) =
        .done (pre ++ t' ++ 0 :: post) output ∧
      ∀ post', output.toList.map (Output.value (pre ++ t' ++ 0 :: post')) = (decode c t).toList) := by
  cases ha : assigns c with
  | false =>
    refine .inr (.inr ⟨by simp [refused, ha], t, none, rfl, param_of_not_assigns ha _ _ _, fun _ => ?_⟩)
    rw [decode_of_not_assigns ha]
    rfl
  | true =>
    rcases param_inPlace h0 pre post ha hc.ne_quote with h | ⟨t', hlen, hmatch⟩
    · exact .inl h
    · right
      cases hd : decode c t with
      | none =>
        rw [hd] at hmatch
        exact .inl ⟨by simp [refused, ha, hd], t', hlen, hmatch⟩
      | some a =>
        rw [hd] at hmatch
        obtain ⟨o, hdone, hvalue⟩ := hmatch
        refine .inr ⟨by simp [refused, hd], t', some o, hlen, hdone, fun post' => ?_⟩
        simp only [Option.toList_some, List.map_singleton, hvalue]

/-- A token that is accepted is decoded in its own place. -/
theorem mem_of_param_done {t m : List UInt8} {c : UInt8} {pre post : List UInt8} {output : Option Output}
    (h0 : 0 ∉ t) (hc : Closed t)
    (h : ParseParams.param c (pre ++ t ++ 0 :: post) pre.length (pre.length + t.length) = .done m output) :
    ∃ t', t'.length = t.length ∧ m = pre ++ t' ++ 0 :: post := by
  rcases param_token h0 hc c pre post with ⟨-, -, hp⟩ | ⟨-, t', -, hp⟩ | ⟨-, t', o, hlen, hp, -⟩
  · rw [hp] at h
    cases h
  · rw [hp] at h
    cases h
  · rw [hp] at h
    injection h with hmem
    exact ⟨t', hlen, hmem.symm⟩

/-! ## The loop -/

/-- The parameters before the first one that is refused. -/
def accepted (ps : List (UInt8 × Token)) : List (UInt8 × Token) := ps.takeWhile fun p => !refused p

/-- The values of parameters; some name no output. -/
def values (ps : List (UInt8 × Token)) : List Arg := ps.filterMap fun p => decode p.1 p.2.chars

/-- The return value for parameters that follow `ret` others. -/
def returned (ret : Int) (ps : List (UInt8 × Token)) : Int :=
  match ps.findIdx? refused with
  | some i => -(ret + i + 1)
  | none => ret + ps.length

theorem returned_cons_refused {p : UInt8 × Token} (h : refused p = true) (ret : Int)
    (ps : List (UInt8 × Token)) : returned ret (p :: ps) = -(ret + 1) := by
  simp [returned, List.findIdx?_cons, h]

theorem returned_cons {p : UInt8 × Token} (h : refused p = false) (ret : Int)
    (ps : List (UInt8 × Token)) : returned ret (p :: ps) = returned (ret + 1) ps := by
  simp only [returned, List.findIdx?_cons, h, Bool.false_eq_true, if_false]
  cases ps.findIdx? refused with
  | none =>
    simp only [Option.map_none, List.length_cons]
    omega
  | some i =>
    simp only [Option.map_some]
    omega

theorem values_accepted_cons {p : UInt8 × Token} (h : refused p = false) (ps : List (UInt8 × Token)) :
    values (accepted (p :: ps)) = (decode p.1 p.2.chars).toList ++ values (accepted ps) := by
  rw [accepted, List.takeWhile_cons_of_pos (by simp [h]), values, List.filterMap_cons]
  cases decode p.1 p.2.chars <;> rfl

theorem accepted_cons_refused {p : UInt8 × Token} (h : refused p = true) (ps : List (UInt8 × Token)) :
    accepted (p :: ps) = [] := by
  rw [accepted, List.takeWhile_cons_of_neg (by simp [h])]

/-- The parameters up to the first one that is refused. -/
def reached (ps : List (UInt8 × Token)) : List (UInt8 × Token) := ps.take ((accepted ps).length + 1)

theorem reached_cons_refused {p : UInt8 × Token} (h : refused p = true) (ps : List (UInt8 × Token)) :
    reached (p :: ps) = [p] := by
  rw [reached, accepted_cons_refused h]
  rfl

theorem reached_cons {p : UInt8 × Token} (h : refused p = false) (ps : List (UInt8 × Token)) :
    reached (p :: ps) = p :: reached ps := by
  rw [reached, accepted, List.takeWhile_cons_of_pos (by simp [h])]
  rfl

/-- A Bluetooth address is not empty. -/
theorem refused_empty {tok : Token} (h : tok.chars = []) : refused (ch 'b', tok) = true := by
  rw [refused, h]
  exact Bool.or_true _

/-- **The loop over the format and the tokens of the line.** There is no result only for an empty token
that is parsed as a Bluetooth address. -/
theorem loop_tokens (fmt : List UInt8) {line : List UInt8} (h0 : 0 ∉ line) (pre post : List UInt8)
    (ret : Int) (outputs : List Output) :
    (ParseParams.loop fmt (pre ++ line ++ 0 :: post) pre.length ret outputs = none ∧
      ∃ tok, (ch 'b', tok) ∈ reached (fmt.zip (tokens line)) ∧ tok.chars = []) ∨
    ∃ line' new, line'.length = line.length ∧
      ParseParams.loop fmt (pre ++ line ++ 0 :: post) pre.length ret outputs =
        some ⟨returned ret (fmt.zip (tokens line)), pre ++ line' ++ 0 :: post, outputs ++ new⟩ ∧
      new.map (Output.value (pre ++ line' ++ 0 :: post)) = values (accepted (fmt.zip (tokens line))) := by
  induction fmt generalizing line pre ret outputs with
  | nil =>
    refine .inr ⟨line, [], rfl, ?_, rfl⟩
    simp [ParseParams.loop, returned]
  | cons c fmt ih =>
    have hstr := cstr_mid h0 pre post
    rcases tokens_cases line with ⟨hc, ht⟩ | ⟨hend, ht⟩ | ⟨t, rest, rfl, hc, ht⟩
    · -- the last token
      have hlast : (pre ++ line ++ 0 :: post).getD (pre.length + line.length) 0 = 0 := getD_behind _ _ _ _
      have hzip : (c :: fmt).zip [(⟨line, false⟩ : Token)] = [(c, ⟨line, false⟩)] := by simp
      rw [ht, hzip]
      rcases param_token h0 hc c pre post with ⟨rfl, rfl, hp⟩ | ⟨hr, t', hlen, hp⟩ |
        ⟨hr, t', output, hlen, hp, hvalue⟩
      · refine .inl ⟨?_, _, by rw [reached_cons_refused (refused_empty rfl)]; exact List.mem_singleton.2 rfl, rfl⟩
        simp only [ParseParams.loop, hstr, findParamEnd_end hc, hlast, beq_self_eq_true, if_true, hp]
      · refine .inr ⟨t', [], hlen, ?_, ?_⟩
        · simp only [ParseParams.loop, hstr, findParamEnd_end hc, hlast, beq_self_eq_true, if_true, hp,
            returned_cons_refused hr, List.append_nil]
        · rw [accepted_cons_refused hr]
          rfl
      · refine .inr ⟨t', output.toList, hlen, ?_, ?_⟩
        · simp only [ParseParams.loop, hstr, findParamEnd_end hc, hlast, beq_self_eq_true, if_true, hp,
            returned_cons hr]
          simp [returned]
        · rw [hvalue, values_accepted_cons hr]
          simp [accepted, values]
    · -- a malformed token
      have hr : refused (c, ⟨line, true⟩) = true := rfl
      refine .inr ⟨line, [], rfl, ?_, ?_⟩
      · rw [ht, List.zip_cons_cons, returned_cons_refused hr]
        simp only [ParseParams.loop, hstr, hend, List.append_nil]
      · rw [ht, List.zip_cons_cons, accepted_cons_refused hr]
        rfl
    · -- a token and the comma behind it, which becomes a terminator
      have h0t : 0 ∉ t := fun h => h0 (List.mem_append_left _ h)
      have h0r : 0 ∉ rest := fun h => h0 (List.mem_append_right _ (List.mem_cons_of_mem _ h))
      have hm : ∀ d, pre ++ (t ++ d :: rest) ++ 0 :: post = pre ++ t ++ d :: (rest ++ 0 :: post) := by
        intro d
        simp
      have hget := getD_behind pre t (ch ',') (rest ++ 0 :: post)
      have hset : (pre ++ t ++ ch ',' :: (rest ++ 0 :: post)).set (pre.length + t.length) 0 =
          pre ++ t ++ 0 :: (rest ++ 0 :: post) := by simp
      have hlast : (ch ',' == 0) = false := rfl
      rw [ht, List.zip_cons_cons]
      rcases param_token h0t hc c pre (rest ++ 0 :: post) with ⟨rfl, rfl, hp⟩ | ⟨hr, t', hlen, hp⟩ |
        ⟨hr, t', output, hlen, hp, hvalue⟩
      · refine .inl ⟨?_, _, by rw [reached_cons_refused (refused_empty rfl)]; exact List.mem_singleton.2 rfl, rfl⟩
        rw [ParseParams.loop, hstr, findParamEnd_comma hc]
        simp only [hm, hget, hlast, Bool.false_eq_true, if_false, hset, hp]
      · refine .inr ⟨t' ++ 0 :: rest, [], by simp [hlen], ?_, ?_⟩
        · rw [ParseParams.loop, hstr, findParamEnd_comma hc]
          simp only [hm, hget, hlast, Bool.false_eq_true, if_false, hset, hp, returned_cons_refused hr,
            List.append_nil]
          simp
        · rw [accepted_cons_refused hr]
          rfl
      · have hend : (pre ++ t' ++ [0]).length = pre.length + t.length + 1 := by
          simp only [List.length_append, hlen, List.length_cons, List.length_nil]
        have hbehind : pre ++ t' ++ 0 :: (rest ++ 0 :: post) = pre ++ t' ++ [0] ++ rest ++ 0 :: post := by
          simp
        have hloop : ParseParams.loop (c :: fmt) (pre ++ (t ++ ch ',' :: rest) ++ 0 :: post) pre.length ret
            outputs = ParseParams.loop fmt (pre ++ t' ++ [0] ++ rest ++ 0 :: post)
              (pre ++ t' ++ [0]).length (ret + 1) (outputs ++ output.toList) := by
          rw [ParseParams.loop, hstr, findParamEnd_comma hc]
          simp only [hm, hget, hlast, Bool.false_eq_true, if_false, hset, hp, hbehind, hend]
        rw [hloop]
        rcases ih h0r (pre ++ t' ++ [0]) (ret + 1) (outputs ++ output.toList) with
          ⟨hnone, tok, hmem, htok⟩ | ⟨line', new, hlen', heq, hnew⟩
        · exact .inl ⟨hnone, tok, by rw [reached_cons hr]; exact List.mem_cons_of_mem _ hmem, htok⟩
        · have hmem : pre ++ t' ++ [0] ++ line' ++ 0 :: post = pre ++ (t' ++ 0 :: line') ++ 0 :: post := by
            simp
          have hmem' : pre ++ t' ++ 0 :: (line' ++ 0 :: post) =
              pre ++ (t' ++ 0 :: line') ++ 0 :: post := by simp
          refine .inr ⟨t' ++ 0 :: line', output.toList ++ new, by simp [hlen, hlen'], ?_, ?_⟩
          · rw [heq, returned_cons hr, hmem, List.append_assoc outputs]
          · rw [hmem] at hnew
            have hv := hvalue (line' ++ 0 :: post)
            rw [hmem'] at hv
            rw [List.map_append, hv, hnew, values_accepted_cons hr]

/-! ## A call -/

/-- What the outputs that parameters name should read as. -/
def decodings (ps : List (UInt8 × Token)) : List (Option Arg) :=
  (ps.filter fun p => assigns p.1).map fun p => decode p.1 p.2.chars

/-- Each output of parameters that are not refused has its value. -/
theorem decodings_eq {ps : List (UInt8 × Token)} (h : ∀ p ∈ ps, refused p = false) :
    decodings ps = (values ps).map some := by
  induction ps with
  | nil => rfl
  | cons p ps ih =>
    have hp := h p List.mem_cons_self
    have hps := ih fun q hq => h q (List.mem_cons_of_mem _ hq)
    simp only [decodings, values] at hps
    simp only [refused, Bool.or_eq_false_iff, Bool.and_eq_false_iff] at hp
    cases ha : assigns p.1 with
    | false =>
      simp only [decodings, values, List.filter_cons, ha, List.filterMap_cons, decode_of_not_assigns ha,
        Bool.false_eq_true, if_false, hps]
    | true =>
      obtain ⟨a, hd⟩ : ∃ a, decode p.1 p.2.chars = some a := by
        rcases hp.2 with hn | hn
        · rw [ha] at hn
          cases hn
        · exact Option.isSome_iff_exists.1 (by cases hs : decode p.1 p.2.chars <;> simp_all)
      simp only [decodings, values, List.filter_cons, ha, List.filterMap_cons, hd, if_true, List.map_cons,
        hps]

theorem accepted_of_none {ps : List (UInt8 × Token)} (h : ps.findIdx? refused = none) :
    accepted ps = ps ∧ ∀ p ∈ ps, refused p = false := by
  have hall : ∀ p ∈ ps, refused p = false := by
    simpa using List.findIdx?_eq_none_iff.1 h
  have happend : (ps ++ []).takeWhile (fun p => !refused p) = _ :=
    List.takeWhile_append_of_pos fun p hp => by rw [hall p hp]; rfl
  rw [List.append_nil, List.takeWhile_nil, List.append_nil] at happend
  exact ⟨happend, hall⟩

theorem accepted_of_some {ps : List (UInt8 × Token)} {i : Nat} (h : ps.findIdx? refused = some i) :
    accepted ps = ps.take i ∧ ∀ p ∈ ps.take i, refused p = false := by
  induction ps generalizing i with
  | nil => simp at h
  | cons p ps ih =>
    cases hp : refused p with
    | true =>
      simp only [List.findIdx?_cons, hp, if_true, Option.some.injEq] at h
      subst h
      exact ⟨accepted_cons_refused hp ps, nofun⟩
    | false =>
      simp only [List.findIdx?_cons, hp, Bool.false_eq_true, if_false, Option.map_eq_some_iff] at h
      obtain ⟨j, hj, rfl⟩ := h
      obtain ⟨hacc, hall⟩ := ih hj
      refine ⟨?_, fun q hq => ?_⟩
      · rw [accepted, List.takeWhile_cons_of_pos (by simp [hp]), List.take_succ_cons, ← hacc, accepted]
      · rw [List.take_succ_cons] at hq
        rcases List.mem_cons.1 hq with rfl | hq
        · exact hp
        · exact hall q hq

/-- The outputs of the accepted parameters, in terms of what they name. -/
theorem values_accepted (ps : List (UInt8 × Token)) :
    (values (accepted ps)).map some = decodings (accepted ps) := by
  refine (decodings_eq fun p hp => ?_).symm
  simpa using List.all_eq_true.1 (List.all_takeWhile (p := fun p => !refused p) (l := ps)) p hp

/-- **Parsing follows the reference tokenization.** -/
theorem parse_tokens {line : List UInt8} (h0 : 0 ∉ line) (pParamFmt : List UInt8)
    (hb : ∀ tok, (ch 'b', tok) ∈ reached (pParamFmt.zip (tokens line)) → tok.chars ≠ []) (pre post : List UInt8) :
    ∃ r, uCxAtUtilParseParamsVaList (pre ++ line ++ 0 :: post) pre.length pParamFmt = some r ∧
      (∃ line', line'.length = line.length ∧ r.m = pre ++ line' ++ 0 :: post) ∧
      match (pParamFmt.zip (tokens line)).findIdx? refused with
      | some i =>
        r.ret = -((i + 1 : Nat) : Int) ∧ r.outputs.map (fun o => some (o.value r.m)) =
          decodings ((pParamFmt.zip (tokens line)).take i)
      | none =>
        r.ret = (min pParamFmt.length (tokens line).length : Nat) ∧
          r.outputs.map (fun o => some (o.value r.m)) = decodings (pParamFmt.zip (tokens line)) := by
  rcases loop_tokens pParamFmt h0 pre post 0 [] with ⟨-, tok, hmem, htok⟩ |
    ⟨line', new, hlen, hloop, hnew⟩
  · exact absurd htok (hb tok hmem)
  · refine ⟨_, hloop, ⟨line', hlen, rfl⟩, ?_⟩
    have hout : ([] ++ new).map (fun o => some (Output.value (pre ++ line' ++ 0 :: post) o)) =
        decodings (accepted (pParamFmt.zip (tokens line))) := by
      rw [← values_accepted, ← hnew, List.map_map]
      rfl
    cases hfind : (pParamFmt.zip (tokens line)).findIdx? refused with
    | none =>
      rw [(accepted_of_none hfind).1] at hout
      refine ⟨?_, hout⟩
      simp only [returned, hfind, List.length_zip, Int.zero_add]
    | some i =>
      rw [(accepted_of_some hfind).1] at hout
      refine ⟨?_, hout⟩
      simp only [returned, hfind]
      omega

/-- The second token is cut off by the bracket that is left open. -/
theorem parse_tokens_open_bracket :
    ∃ r, uCxAtUtilParseParamsVaList ([] ++ text "\"a,b\",[1" ++ 0 :: []) 0 (text "sl") = some r ∧
      (∃ line', line'.length = (text "\"a,b\",[1").length ∧ r.m = [] ++ line' ++ 0 :: []) ∧
      match ((text "sl").zip (tokens (text "\"a,b\",[1"))).findIdx? refused with
      | some i =>
        r.ret = -((i + 1 : Nat) : Int) ∧ r.outputs.map (fun o => some (o.value r.m)) =
          decodings (((text "sl").zip (tokens (text "\"a,b\",[1"))).take i)
      | none =>
        r.ret = (min (text "sl").length (tokens (text "\"a,b\",[1")).length : Nat) ∧
          r.outputs.map (fun o => some (o.value r.m)) =
            decodings ((text "sl").zip (tokens (text "\"a,b\",[1"))) := by
  have hb : ∀ tok, (ch 'b', tok) ∈ reached ((text "sl").zip (tokens (text "\"a,b\",[1"))) → tok.chars ≠ [] := by
    have hzip : reached ((text "sl").zip (tokens (text "\"a,b\",[1"))) =
        [(ch 's', ⟨text "\"a,b\"", false⟩), (ch 'l', ⟨text "[1", true⟩)] := by decide +kernel
    rw [hzip]
    intro tok h
    simp only [List.mem_cons, Prod.mk.injEq, List.not_mem_nil, or_false] at h
    rcases h with ⟨h, -⟩ | ⟨h, -⟩ <;> exact absurd h (by decide)
  exact parse_tokens (by decide) (text "sl") hb [] []

/-! ## Lines that are too short -/

/-- The outputs that the format names have been assigned, if the call returns a number of parameters. -/
def AssignsAll (m : List UInt8) (pParams : Nat) (pParamFmt : List UInt8) : Prop :=
  ∀ r, uCxAtUtilParseParamsVaList m pParams pParamFmt = some r → 0 ≤ r.ret →
    r.outputs.length = (pParamFmt.filter assigns).length

/-- The outputs named by the tokens that there are. -/
theorem length_decodings_zip (fmt : List UInt8) (ts : List Token) :
    (decodings (fmt.zip ts)).length = ((fmt.take ts.length).filter assigns).length := by
  induction fmt generalizing ts with
  | nil => simp [decodings]
  | cons c fmt ih =>
    cases ts with
    | nil => rfl
    | cons t ts =>
      have hts := ih ts
      simp only [decodings, List.length_map] at hts
      simp only [decodings, List.zip_cons_cons, List.length_map, List.length_cons, List.take_succ_cons,
        List.filter_cons]
      split
      · simp only [List.length_cons, hts]
      · exact hts

/-- **A success assigns every output** exactly if the line has a token for each, or there is no success. -/
theorem success_assigns_iff {line : List UInt8} (h0 : 0 ∉ line) (pParamFmt pre post : List UInt8) :
    AssignsAll (pre ++ line ++ 0 :: post) pre.length pParamFmt ↔
      (∃ p ∈ pParamFmt.zip (tokens line), refused p = true) ∨
        ∀ c ∈ pParamFmt.drop (tokens line).length, assigns c = false := by
  have hfilter : (pParamFmt.filter assigns).length =
      ((pParamFmt.take (tokens line).length).filter assigns).length +
        ((pParamFmt.drop (tokens line).length).filter assigns).length := by
    rw [← List.length_append, ← List.filter_append, List.take_append_drop]
  have hempty : ((pParamFmt.drop (tokens line).length).filter assigns).length = 0 ↔
      ∀ c ∈ pParamFmt.drop (tokens line).length, assigns c = false := by
    rw [List.length_eq_zero_iff, List.filter_eq_nil_iff]
    simp
  rcases loop_tokens pParamFmt h0 pre post 0 [] with ⟨hloop, tok, hmem, htok⟩ |
    ⟨line', new, -, hloop, hnew⟩
  · -- the empty token is rejected too
    refine iff_of_true (fun r hparse => ?_) (.inl ⟨_, List.mem_of_mem_take hmem, refused_empty htok⟩)
    rw [uCxAtUtilParseParamsVaList, hloop] at hparse
    cases hparse
  · have hparse : uCxAtUtilParseParamsVaList (pre ++ line ++ 0 :: post) pre.length pParamFmt = _ := hloop
    cases hfind : (pParamFmt.zip (tokens line)).findIdx? refused with
    | some i =>
      have hr : ∃ p ∈ pParamFmt.zip (tokens line), refused p = true := by
        have h : ((pParamFmt.zip (tokens line)).findIdx? refused).isSome = _ := List.findIdx?_isSome
        rw [hfind] at h
        simpa using h.symm
      refine iff_of_true (fun r hr' hret => ?_) (.inl hr)
      rw [hparse] at hr'
      cases hr'
      simp only [returned, hfind] at hret
      omega
    | none =>
      obtain ⟨hacc, hall⟩ := accepted_of_none hfind
      have hlen : new.length = ((pParamFmt.take (tokens line).length).filter assigns).length := by
        rw [← length_decodings_zip, decodings_eq hall, List.length_map]
        rw [hacc] at hnew
        rw [← hnew, List.length_map]
      have hnone : ¬∃ p ∈ pParamFmt.zip (tokens line), refused p = true := by
        intro ⟨p, hp, hr⟩
        rw [hall p hp] at hr
        cases hr
      rw [or_iff_right hnone, ← hempty]
      constructor
      · intro h
        have hr := h _ hparse (by
          simp only [returned, hfind]
          omega)
        simp only [List.nil_append] at hr
        omega
      · intro h r hr _
        rw [hparse] at hr
        cases hr
        simp only [List.nil_append]
        omega

theorem success_assigns_iff_uebtc :
    AssignsAll ([] ++ text "1" ++ 0 :: []) 0 (text "db") ↔
      (∃ p ∈ (text "db").zip (tokens (text "1")), refused p = true) ∨
        ∀ c ∈ (text "db").drop (tokens (text "1")).length, assigns c = false :=
  success_assigns_iff (by decide) (text "db") [] []

/-- A URC `+UEBTC` with a handle and no address. -/
theorem short_line_succeeds :
    ∃ r, uCxAtUtilParseParamsVaList (text "1" ++ [0]) 0 (text "db") = some r ∧ 0 ≤ r.ret ∧
      r.outputs.length < ((text "db").filter assigns).length :=
  ⟨⟨1, text "1" ++ [0], [.int 1]⟩, rfl, by decide, by decide⟩
