import UcxClient.Text.Tokens

/-!
# The reference tokenization

`tokens line`: the tokens of a line, split at the commas that are outside double quotes, outside
brackets and not escaped. It is one pass over the whole line that carries along what the characters so
far leave open (`Pending`); nothing is reset at a comma, and a token is malformed if something is open
at its end.

`uCxAtUtilFindParamEnd` starts afresh at each parameter. `tokens_cases`: it stops where the first token of
what is left ends, and fails if that token is malformed.
-/

/-- What the characters so far leave open. -/
structure Pending where
  quotes : Bool
  brackets : Bool
  escape : Bool
  deriving DecidableEq

namespace Pending

def nothing : Pending := ⟨false, false, false⟩

def isOpen (p : Pending) : Bool := p.quotes || p.brackets || p.escape

/-- Brackets do not nest and have no meaning in quotes. -/
def next (p : Pending) (c : UInt8) : Pending :=
  if p.escape then { p with escape := false }
  else if c = ch '\\' then { p with escape := true }
  else if c = ch '"' then { p with quotes := !p.quotes }
  else if p.quotes then p
  else if c = ch '[' then { p with brackets := true }
  else if c = ch ']' then { p with brackets := false }
  else p

end Pending

structure Token where
  chars : List UInt8
  malformed : Bool
  deriving DecidableEq

/-- The first token of the rest of a line, and those behind it. -/
def tokensFrom : Pending → List UInt8 → Token × List Token
  | p, [] => (⟨[], p.isOpen⟩, [])
  | p, c :: cs =>
    if c = ch ',' ∧ p.isOpen = false then
      let (t, ts) := tokensFrom p cs
      (⟨[], false⟩, t :: ts)
    else
      let (t, ts) := tokensFrom (p.next c) cs
      (⟨c :: t.chars, t.malformed⟩, ts)

def tokens (line : List UInt8) : List Token :=
  let (t, ts) := tokensFrom .nothing line
  t :: ts

example : tokens (text "1,\"a,\\\"\",[2,3],\\,[") =
    [⟨text "1", false⟩, ⟨text "\"a,\\\"\"", false⟩, ⟨text "[2,3]", false⟩, ⟨text "\\,[", true⟩] := by
  decide

/-! ## The tokenizer finds the first token -/

/-- What the variables of the loop stand for. -/
def Scan.pending (st : Scan) : Pending := ⟨st.insideString, st.insideBracket, st.escape⟩

/-- The loop stops at the commas that separate tokens. -/
theorem Scan.step_pending (st : Scan) (c : UInt8) : (st.step c).map Scan.pending =
    if c = ch ',' ∧ st.pending.isOpen = false then none else some (st.pending.next c) := by
  have hall : ∀ a b e, ∀ c, ((⟨a, b, e⟩ : Scan).step c).map Scan.pending =
      if c = ch ',' ∧ (⟨a, b, e⟩ : Scan).pending.isOpen = false then none
      else some ((⟨a, b, e⟩ : Scan).pending.next c) := by
    intro a b e
    apply forall_byte
    revert a b e
    decide +kernel
  exact hall _ _ _ c

theorem Scan.eq_init {st : Scan} (h : st.pending.isOpen = false) : st = Scan.init := by
  obtain ⟨a, b, e⟩ := st
  simp only [pending, Pending.isOpen, Bool.or_eq_false_iff] at h
  obtain ⟨⟨rfl, rfl⟩, rfl⟩ := h
  rfl

/-- The rest of a line from anywhere in a token: it ends with the token, closed or not, or a comma
ends the token. -/
theorem tokensFrom_cases (st : Scan) (line : List UInt8) :
    (st.Passes line Scan.init ∧ tokensFrom st.pending line = (⟨line, false⟩, [])) ∨
    (∃ st', st.Passes line st' ∧ st'.pending.isOpen = true ∧
      tokensFrom st.pending line = (⟨line, true⟩, [])) ∨
    ∃ t rest, line = t ++ ch ',' :: rest ∧ st.Passes t Scan.init ∧
      tokensFrom st.pending line = (⟨t, false⟩, tokens rest) := by
  induction line generalizing st with
  | nil =>
    cases hopen : st.pending.isOpen with
    | false =>
      refine .inl ⟨?_, by rw [tokensFrom, hopen]⟩
      rw [Scan.eq_init hopen]
      exact .nil _
    | true => exact .inr (.inl ⟨st, .nil st, hopen, by rw [tokensFrom, hopen]⟩)
  | cons c cs ih =>
    have hstep := st.step_pending c
    by_cases hcomma : c = ch ',' ∧ st.pending.isOpen = false
    · refine .inr (.inr ⟨[], cs, by rw [hcomma.1]; rfl, ?_, ?_⟩)
      · rw [Scan.eq_init hcomma.2]
        exact .nil _
      · rw [tokensFrom, if_pos hcomma, Scan.eq_init hcomma.2]
        rfl
    · rw [if_neg hcomma] at hstep
      obtain ⟨st', hst', hnext⟩ := Option.map_eq_some_iff.1 hstep
      rw [tokensFrom, if_neg hcomma, ← hnext]
      rcases ih st' with ⟨hp, ht⟩ | ⟨st'', hp, ho, ht⟩ | ⟨t, rest, rfl, hp, ht⟩
      · exact .inl ⟨.cons hst' hp, by rw [ht]⟩
      · exact .inr (.inl ⟨st'', .cons hst' hp, ho, by rw [ht]⟩)
      · exact .inr (.inr ⟨c :: t, rest, rfl, .cons hst' hp, by rw [ht]⟩)

/-- Where something is left open there is no end. -/
theorem findParamEnd_open {line : List UInt8} {st : Scan} (h : Scan.init.Passes line st)
    (ho : st.pending.isOpen = true) : uCxAtUtilFindParamEnd line = none := by
  have hloop := h.loop []
  rw [List.append_nil] at hloop
  rw [uCxAtUtilFindParamEnd, hloop]
  obtain ⟨a, b, e⟩ := st
  simp only [Scan.pending, Pending.isOpen, Bool.or_eq_true] at ho
  refine if_pos ?_
  rcases ho with (ho | ho) | ho
  · exact .inl ho
  · exact .inr (.inr ho)
  · exact .inr (.inl ho)

/-- **The first token of a line**: the line itself, if it is closed or malformed, or what stands before
the first comma that separates. -/
theorem tokens_cases (line : List UInt8) :
    (Closed line ∧ tokens line = [⟨line, false⟩]) ∨
    (uCxAtUtilFindParamEnd line = none ∧ tokens line = [⟨line, true⟩]) ∨
    ∃ t rest, line = t ++ ch ',' :: rest ∧ Closed t ∧ tokens line = ⟨t, false⟩ :: tokens rest := by
  have htokens : ∀ t ts, tokensFrom Scan.init.pending line = (t, ts) → tokens line = t :: ts := by
    intro t ts h
    rw [tokens, show Pending.nothing = Scan.init.pending from rfl, h]
  rcases tokensFrom_cases Scan.init line with ⟨hp, ht⟩ | ⟨st, hp, ho, ht⟩ | ⟨t, rest, hline, hp, ht⟩
  · exact .inl ⟨hp, htokens _ _ ht⟩
  · exact .inr (.inl ⟨findParamEnd_open hp ho, htokens _ _ ht⟩)
  · exact .inr (.inr ⟨t, rest, hline, hp, htokens _ _ ht⟩)
