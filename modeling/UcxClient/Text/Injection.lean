import UcxClient.Text.Args

/-!
# No argument breaks out of its parameter

`sendCmd_contained`: the bytes of a command are the command, the parameters with commas between and one
CR; the parameters have no CR, LF or SOH, and each string argument is one quoted token from which
`unescapeString` recovers it (`QuotedToken`). This holds when every string is `Contained`: its escaped
form fits in the buffer of `uCxAtClientSendCmdVaList`, or there is nothing to escape in it that
matters. A string that is too long is written as it is, whatever it contains (`long_string_escapes`).
-/

open ByteMem SendCmd

/-- The string can be written: escaped, or as it is. -/
def Contained (s : List UInt8) : Prop :=
  (escapedForm s).length < bufSize ∨
    ∀ c ∈ s, c ≠ ch '\r' ∧ c ≠ ch '\n' ∧ c ≠ 1 ∧ standsForItself c = true

/-- The token is the string between double quotes, with every quote and backslash escaped; it ends for
the tokenizer where it ends, and between the quotes `unescapeString` finds the string. -/
def QuotedToken (t s : List UInt8) : Prop :=
  ∃ body, t = ch '"' :: body ++ [ch '"'] ∧ Spells body s ∧ uCxAtUtilFindParamEnd t = some t.length ∧
    ∀ pre post,
      (unescapeString (pre ++ body ++ 0 :: post) pre.length).2 = s.length ∧
        load (unescapeString (pre ++ body ++ 0 :: post) pre.length).1 pre.length s.length = s

theorem Spells.quotedToken {body s : List UInt8} (h : Spells body s) :
    QuotedToken (ch '"' :: body ++ [ch '"']) s := by
  refine ⟨body, rfl, h, findParamEnd_end h.closed, fun pre post => ?_⟩
  obtain ⟨gap, -, heq⟩ := h.unescape pre post
  rw [heq]
  exact ⟨rfl, by simp [load]⟩

theorem isprint_facts (c : UInt8) (h : isprint c = true) : c ≠ ch '\r' ∧ c ≠ ch '\n' ∧ c ≠ 1 :=
  ⟨ne_of_class h rfl, ne_of_class h rfl, ne_of_class h rfl⟩

theorem Contained.spells {s : List UInt8} (h : Contained s) :
    ∃ body, stringText s = ch '"' :: body ++ [ch '"'] ∧ Spells body s ∧
      ∀ c ∈ body, c ≠ ch '\r' ∧ c ≠ ch '\n' ∧ c ≠ 1 := by
  by_cases hfit : (escapedForm s).length < bufSize
  · refine ⟨s.flatMap escapeCharacter, by rw [stringText_eq, if_pos hfit]; rfl, .of_escapes s, ?_⟩
    intro d hd
    obtain ⟨c, -, hd⟩ := List.mem_flatMap.1 hd
    exact isprint_facts d (isprint_escapeCharacter hd)
  · have hall := h.resolve_left hfit
    exact ⟨s, by rw [stringText_eq, if_neg hfit], .of_plain fun c hc => (hall c hc).2.2.2,
      fun c hc => ⟨(hall c hc).1, (hall c hc).2.1, (hall c hc).2.2.1⟩⟩

/-- The characters of a text, for an argument that is contained if it is a string. -/
theorem token_chars {a : Arg} (hb : a.isBinary = false) (hs : ∀ s, a.string? = some s → Contained s) :
    ∀ c ∈ a.token, c ≠ ch '\r' ∧ c ≠ ch '\n' ∧ c ≠ 1 := by
  cases hstr : a.string? with
  | none => exact fun c hc => isprint_facts c (token_isprint hb hstr c hc)
  | some s =>
    obtain ⟨body, heq, -, hbody⟩ := (hs s hstr).spells
    rw [token_string hstr, heq]
    intro c hc
    simp only [List.cons_append, List.mem_cons, List.mem_append, List.not_mem_nil, or_false] at hc
    rcases hc with rfl | hc | rfl
    · decide
    · exact hbody c hc
    · decide

/-- **No argument breaks out of its parameter.** -/
theorem sendCmd_contained (pCmd : List UInt8) (args : List Arg)
    (hb : ∀ a ∈ args, a.isBinary = false)
    (hs : ∀ a ∈ args, ∀ s, a.string? = some s → Contained s) :
    uCxAtClientSendCmdVaList pCmd (args.map Arg.fmt) args =
        some (pCmd ++ commaSeparated (args.map Arg.token) ++ [ch '\r']) ∧
      (∀ c ∈ commaSeparated (args.map Arg.token), c ≠ ch '\r' ∧ c ≠ ch '\n' ∧ c ≠ 1) ∧
      ∀ a ∈ args, ∀ s, a.string? = some s → QuotedToken a.token s := by
  refine ⟨sendCmd_eq pCmd hb, ?_, ?_⟩
  · intro c hc
    rcases mem_commaSeparated hc with rfl | ⟨t, ht, hc⟩
    · decide
    · obtain ⟨a, ha, rfl⟩ := List.mem_map.1 ht
      exact token_chars (hb a ha) (hs a ha) c hc
  · intro a ha s hstr
    obtain ⟨body, heq, hspells, -⟩ := (hs a ha s hstr).spells
    rw [token_string hstr, heq]
    exact hspells.quotedToken

theorem sendCmd_contained_quote :
    uCxAtClientSendCmdVaList (text "AT+S=") (text "$d") [.binStr (text "\""), .int 5] =
        some (text "AT+S=" ++ commaSeparated [text "\"\\\"\"", text "5"] ++ [ch '\r']) ∧
      (∀ c ∈ commaSeparated [text "\"\\\"\"", text "5"], c ≠ ch '\r' ∧ c ≠ ch '\n' ∧ c ≠ 1) ∧
      ∀ a ∈ [Arg.binStr (text "\""), .int 5], ∀ s, a.string? = some s → QuotedToken a.token s :=
  sendCmd_contained (text "AT+S=") [.binStr (text "\""), .int 5] (by decide) (by
    intro a ha s hs
    simp only [List.mem_cons, List.not_mem_nil, or_false] at ha
    rcases ha with rfl | rfl
    · cases hs
      exact .inl (by decide)
    · cases hs)

/-- A string that is too long to be escaped, with a CR in it. -/
def longString : List UInt8 := List.replicate 40 (ch 'A') ++ text "\rAT"

theorem long_string_escapes :
    ¬∀ (pCmd : List UInt8) (args : List Arg), (∀ c ∈ pCmd, c ≠ ch '\r' ∧ c ≠ ch '\n') →
      (∀ a ∈ args, a.isBinary = false) →
      uCxAtClientSendCmdVaList pCmd (args.map Arg.fmt) args =
          some (pCmd ++ commaSeparated (args.map Arg.token) ++ [ch '\r']) ∧
        (∀ c ∈ commaSeparated (args.map Arg.token), c ≠ ch '\r' ∧ c ≠ ch '\n' ∧ c ≠ 1) ∧
        ∀ a ∈ args, ∀ s, a.string? = some s → QuotedToken a.token s := by
  intro h
  have hcr := (h (text "AT+S=") [.str ⟨longString, by decide +kernel⟩] (by decide +kernel)
    (by decide +kernel)).2.1 (ch '\r') (by decide +kernel)
  exact hcr.1 rfl
