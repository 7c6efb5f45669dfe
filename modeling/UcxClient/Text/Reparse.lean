import UcxClient.Text.Reference
import UcxClient.Text.Values

/-!
# Parsing a line twice

The getters with more than one syntax (`uCxWifiStationGetSecurityBegin` of
`ucx_api/generated/u_cx_wifi.c`, for one) parse the first parameters of a line, put the commas back with
`uCxAtUtilReplaceChar` and parse the line again.

* `param_keeps`: the formats `-`, `d`, `i` and `m` leave the text of a parameter as it is.
* `loop_reverts`: so what becomes of a line, at the end of the format or of the line and at each error, is
  the line but for commas that are terminators.
* `reparse_lossless`: the commas put back, the line is as it was.
-/

/-! ## Replacing a character -/

/-- What becomes of a character. -/
def replaced (fromChar toChar c : UInt8) : UInt8 := if c = fromChar then toChar else c

theorem replaceCharLoop_mid (fromChar toChar : UInt8) (pre s post : List UInt8) (pData i : Nat)
    (hi : pData + i = pre.length) :
    replaceCharLoop pData fromChar toChar s.length i (pre ++ s ++ post) =
      pre ++ s.map (replaced fromChar toChar) ++ post := by
  induction s generalizing pre i with
  | nil => rw [List.map_nil, List.length_nil, replaceCharLoop]
  | cons c s ih =>
    have hget : (pre ++ c :: s ++ post).getD (pData + i) 0 = c := by
      rw [hi, List.append_assoc, List.cons_append]
      exact getD_mid _ _ _
    have hset : (if c = fromChar then (pre ++ c :: s ++ post).set (pData + i) toChar
        else pre ++ c :: s ++ post) = pre ++ [replaced fromChar toChar c] ++ s ++ post := by
      rw [hi, replaced]
      split <;> simp
    have hnext : pData + (i + 1) = (pre ++ [replaced fromChar toChar c]).length := by
      simp only [List.length_append, List.length_cons, List.length_nil]
      omega
    rw [List.length_cons, replaceCharLoop, hget, hset, ih _ _ hnext, List.map_cons]
    simp

/-- **The characters of a range are replaced** and nothing else is. -/
theorem replaceChar_mid (fromChar toChar : UInt8) (pre s post : List UInt8) :
    uCxAtUtilReplaceChar (pre ++ s ++ post) pre.length s.length fromChar toChar =
      pre ++ s.map (replaced fromChar toChar) ++ post :=
  replaceCharLoop_mid fromChar toChar pre s post pre.length 0 rfl

/-! ## What a parse leaves of the line -/

/-- The line is `cut` with commas for its terminators. -/
def Reverts (cut line : List UInt8) : Prop := cut.map (replaced 0 (ch ',')) = line

theorem Reverts.refl {line : List UInt8} (h0 : 0 ∉ line) : Reverts line line := by
  have hkeep : ∀ c ∈ line, replaced 0 (ch ',') c = id c := by
    intro c hc
    exact if_neg fun h : c = 0 => h0 (h ▸ hc)
  exact (List.map_congr_left hkeep).trans line.map_id

theorem Reverts.comma {t cut line : List UInt8} (h0 : 0 ∉ t) (h : Reverts cut line) :
    Reverts (t ++ 0 :: cut) (t ++ ch ',' :: line) := by
  have ht : t.map (replaced 0 (ch ',')) = t := Reverts.refl h0
  simp only [Reverts] at h
  rw [Reverts, List.map_append, List.map_cons, h, ht]
  rfl

theorem Reverts.length_eq {cut line : List UInt8} (h : Reverts cut line) : cut.length = line.length := by
  rw [← h, List.length_map]

theorem converted_keeps (m : List UInt8) (output : Option Output) :
    ParseParams.converted m output = .failed m ∨ ∃ o, ParseParams.converted m output = .done m o := by
  cases output with
  | none => exact .inl rfl
  | some o => exact .inr ⟨some o, rfl⟩

/-- These formats do not write to the text of the parameter. -/
theorem param_keeps {c : UInt8} (hc : c ∈ text "-dim") (m : List UInt8) (pParam pParamEnd : Nat) :
    ParseParams.param c m pParam pParamEnd = .failed m ∨
      ∃ o, ParseParams.param c m pParam pParamEnd = .done m o := by
  have htext : text "-dim" = [ch '-', ch 'd', ch 'i', ch 'm'] := rfl
  rw [htext] at hc
  simp only [List.mem_cons, List.not_mem_nil, or_false] at hc
  rcases hc with rfl | rfl | rfl | rfl
  · exact .inr ⟨none, rfl⟩
  · exact converted_keeps _ _
  · exact converted_keeps _ _
  · exact converted_keeps _ _

/-- What becomes of a line: its commas are put back by `Reverts`, wherever the loop stops. -/
theorem loop_reverts {fmt : List UInt8} (hfmt : ∀ c ∈ fmt, c ∈ text "-dim") {line : List UInt8}
    (h0 : 0 ∉ line) (pre post : List UInt8) (ret : Int) (outputs : List Output) :
    ∃ r cut, ParseParams.loop fmt (pre ++ line ++ 0 :: post) pre.length ret outputs = some r ∧
      r.m = pre ++ cut ++ 0 :: post ∧ Reverts cut line := by
  induction fmt generalizing line pre ret outputs with
  | nil => exact ⟨_, line, rfl, rfl, .refl h0⟩
  | cons c fmt ih =>
    have hstr := cstr_mid h0 pre post
    have hc := hfmt c List.mem_cons_self
    rcases tokens_cases line with ⟨hend, -⟩ | ⟨hend, -⟩ | ⟨t, rest, rfl, hend, -⟩
    · -- the last token keeps its terminator
      have hlast : (pre ++ line ++ 0 :: post).getD (pre.length + line.length) 0 = 0 := getD_behind _ _ _ _
      simp only [ParseParams.loop, hstr, findParamEnd_end hend, hlast, beq_self_eq_true, if_true]
      rcases param_keeps hc (pre ++ line ++ 0 :: post) pre.length (pre.length + line.length) with
        hp | ⟨o, hp⟩
      · rw [hp]
        exact ⟨_, line, rfl, rfl, .refl h0⟩
      · rw [hp]
        exact ⟨_, line, rfl, rfl, .refl h0⟩
    · -- a malformed token
      simp only [ParseParams.loop, hstr, hend]
      exact ⟨_, line, rfl, rfl, .refl h0⟩
    · -- a token and its comma, which is cut
      have h0t : 0 ∉ t := fun h => h0 (List.mem_append_left _ h)
      have h0r : 0 ∉ rest := fun h => h0 (List.mem_append_right _ (List.mem_cons_of_mem _ h))
      have hget : (pre ++ (t ++ ch ',' :: rest) ++ 0 :: post).getD (pre.length + t.length) 0 = ch ',' := by
        simp
      have hset : (pre ++ (t ++ ch ',' :: rest) ++ 0 :: post).set (pre.length + t.length) 0 =
          pre ++ t ++ [0] ++ rest ++ 0 :: post := by simp
      have hcut : ∀ cut, pre ++ t ++ [0] ++ cut ++ 0 :: post = pre ++ (t ++ 0 :: cut) ++ 0 :: post := by
        simp
      have hpos : pre.length + t.length + 1 = (pre ++ t ++ [0]).length := by simp; omega
      have hcomma : (ch ',' == 0) = false := rfl
      simp only [ParseParams.loop, hstr, findParamEnd_comma hend, hget, hcomma, Bool.false_eq_true,
        if_false, hset]
      rcases param_keeps hc (pre ++ t ++ [0] ++ rest ++ 0 :: post) pre.length (pre.length + t.length) with
        hp | ⟨o, hp⟩
      · rw [hp]
        exact ⟨_, t ++ 0 :: rest, rfl, hcut rest, (Reverts.refl h0r).comma h0t⟩
      · rw [hp, hpos]
        obtain ⟨r, cut, hr, hm, hrev⟩ := ih (fun d hd => hfmt d (List.mem_cons_of_mem _ hd)) h0r
          (pre ++ t ++ [0]) (ret + 1) (outputs ++ o.toList)
        exact ⟨r, t ++ 0 :: cut, hr, hm.trans (hcut cut), hrev.comma h0t⟩

/-- **Nothing is lost for a second parse.** -/
theorem reparse_lossless {line pParamFmt : List UInt8} (h0 : 0 ∉ line)
    (hfmt : ∀ c ∈ pParamFmt, c ∈ text "-dim") (pre post : List UInt8) :
    ∃ r, uCxAtUtilParseParamsVaList (pre ++ line ++ 0 :: post) pre.length pParamFmt = some r ∧
      uCxAtUtilReplaceChar r.m pre.length line.length 0 (ch ',') = pre ++ line ++ 0 :: post ∧
      ∀ fmt, uCxAtUtilParseParamsVaList (uCxAtUtilReplaceChar r.m pre.length line.length 0 (ch ','))
          pre.length fmt =
        uCxAtUtilParseParamsVaList (pre ++ line ++ 0 :: post) pre.length fmt := by
  obtain ⟨r, cut, hr, hm, hrev⟩ := loop_reverts hfmt h0 pre post 0 []
  have hrestored : uCxAtUtilReplaceChar r.m pre.length line.length 0 (ch ',') =
      pre ++ line ++ 0 :: post := by
    have hmid := replaceChar_mid 0 (ch ',') pre cut (0 :: post)
    simp only [Reverts] at hrev
    rwa [hrev, ← hm, Reverts.length_eq hrev] at hmid
  exact ⟨r, hr, hrestored, fun fmt => by rw [hrestored]⟩

/-- The first parse fails at its second parameter. -/
theorem reparse_lossless_failed :
    ∃ r, uCxAtUtilParseParamsVaList ([] ++ text "0,a,\"b\"" ++ 0 :: []) ([] : List UInt8).length
        (text "-d") = some r ∧
      uCxAtUtilReplaceChar r.m ([] : List UInt8).length (text "0,a,\"b\"").length 0 (ch ',') =
        [] ++ text "0,a,\"b\"" ++ 0 :: [] ∧
      ∀ fmt, uCxAtUtilParseParamsVaList
          (uCxAtUtilReplaceChar r.m ([] : List UInt8).length (text "0,a,\"b\"").length 0 (ch ','))
          ([] : List UInt8).length fmt =
        uCxAtUtilParseParamsVaList ([] ++ text "0,a,\"b\"" ++ 0 :: []) ([] : List UInt8).length fmt := by
  have hline : 0 ∉ text "0,a,\"b\"" := by decide
  have hfmt : ∀ c ∈ text "-d", c ∈ text "-dim" := by
    intro c hc
    exact List.contains_iff_mem.1 (List.all_eq_true.1
      (show (text "-d").all (fun c => (text "-dim").contains c) = true from rfl) c hc)
  exact reparse_lossless hline hfmt [] []
