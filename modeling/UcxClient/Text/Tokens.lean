import UcxClient.Text.Util

/-!
# Tokens and escaped strings

A token is `Closed` if `uCxAtUtilFindParamEnd` passes it and is behind it as it was before, so that it
ends at the next comma (`findParamEnd_comma`) or at the end of the string (`findParamEnd_end`).

`Spells body s`: the characters `body` stand for the string `s` between double quotes, each character as
its escape sequence or, unless it is a quote, a backslash or a terminator, as itself. Such a token
is closed (`Spells.closed`), and `unescapeString` turns it into `s` in place
(`Spells.unescapeString`).
-/

open ByteMem

/-! ## Closed tokens -/

/-- The loop passes these characters. -/
def Scan.Passes (st : Scan) (cs : List UInt8) (st' : Scan) : Prop := cs.foldlM Scan.step st = some st'

/-- Behind the token the loop is as before it. -/
def Closed (t : List UInt8) : Prop := Scan.init.Passes t Scan.init

namespace Scan

variable {st st' st'' : Scan} {cs cs' : List UInt8}

theorem Passes.nil (st : Scan) : st.Passes [] st := rfl

theorem Passes.cons {c : UInt8} (h : st.step c = some st') (h' : st'.Passes cs st'') :
    st.Passes (c :: cs) st'' := by
  simp only [Passes, List.foldlM_cons, h]
  exact h'

theorem Passes.append (h : st.Passes cs st') (h' : st'.Passes cs' st'') :
    st.Passes (cs ++ cs') st'' := by
  simp only [Passes] at h
  simp only [Passes, List.foldlM_append, h]
  exact h'

/-- Characters that leave the loop as it is. -/
theorem Passes.all (h : ∀ c ∈ cs, st.step c = some st) : st.Passes cs st := by
  induction cs with
  | nil => exact .nil st
  | cons c cs ih =>
    exact .cons (h c List.mem_cons_self) (ih fun d hd => h d (List.mem_cons_of_mem _ hd))

theorem Passes.loop (h : st.Passes cs st') (rest : List UInt8) :
    st.loop (cs ++ rest) = ((st'.loop rest).1, cs.length + (st'.loop rest).2) := by
  induction cs generalizing st with
  | nil =>
    cases h
    simp
  | cons c cs ih =>
    simp only [Passes, List.foldlM_cons] at h
    obtain ⟨st₁, hstep, hrest⟩ := Option.bind_eq_some_iff.1 h
    simp only [List.cons_append, Scan.loop, hstep, ih hrest, List.length_cons]
    congr 1
    omega

end Scan

theorem findParamEnd_comma {t : List UInt8} (h : Closed t) (rest : List UInt8) :
    uCxAtUtilFindParamEnd (t ++ ch ',' :: rest) = some t.length := by
  have hloop := Scan.Passes.loop h (ch ',' :: rest)
  have hend : Scan.init.loop (ch ',' :: rest) = (Scan.init, 0) := rfl
  rw [hend] at hloop
  rw [uCxAtUtilFindParamEnd, hloop]
  rfl

theorem findParamEnd_end {t : List UInt8} (h : Closed t) :
    uCxAtUtilFindParamEnd t = some t.length := by
  have hloop := Scan.Passes.loop h []
  rw [List.append_nil] at hloop
  rw [uCxAtUtilFindParamEnd, hloop]
  rfl

/-- Characters without a meaning of their own. -/
def isPlain (c : UInt8) : Bool := !(text "\\\"[],").contains c

theorem isPlain_iff {c : UInt8} : isPlain c = true ↔
    c ≠ ch '\\' ∧ c ≠ ch '"' ∧ c ≠ ch '[' ∧ c ≠ ch ']' ∧ c ≠ ch ',' := by
  have htext : text "\\\"[]," = [ch '\\', ch '"', ch '[', ch ']', ch ','] := rfl
  simp [isPlain, htext]

theorem Scan.step_plain {c : UInt8} (h : isPlain c = true) (bracket : Bool) :
    (⟨false, bracket, false⟩ : Scan).step c = some ⟨false, bracket, false⟩ := by
  obtain ⟨hescape, hquote, hopen, hclose, hcomma⟩ := isPlain_iff.1 h
  simp [Scan.step, hescape, hquote, hopen, hclose, hcomma]

theorem Closed.plain {t : List UInt8} (h : ∀ c ∈ t, isPlain c = true) : Closed t :=
  Scan.Passes.all fun c hc => Scan.step_plain (h c hc) false

/-- In brackets commas have no meaning either. -/
theorem Closed.brackets {t : List UInt8} (h : ∀ c ∈ t, isPlain c = true ∨ c = ch ',') :
    Closed (ch '[' :: t ++ [ch ']']) := by
  have hin : (⟨false, true, false⟩ : Scan).Passes t ⟨false, true, false⟩ := by
    refine Scan.Passes.all fun c hc => ?_
    rcases h c hc with hplain | rfl
    · exact Scan.step_plain hplain true
    · rfl
  exact (Scan.Passes.cons rfl hin).append (.cons rfl (.nil _))

/-! ## Escaped strings -/

/-- A character that stands for itself in an escaped string. -/
def standsForItself (c : UInt8) : Bool := c != ch '"' && c != ch '\\' && c != 0

theorem standsForItself_iff {c : UInt8} :
    standsForItself c = true ↔ c ≠ ch '"' ∧ c ≠ ch '\\' ∧ c ≠ 0 := by
  simp [standsForItself, and_assoc]

/-- `body` stands for the string between double quotes. -/
inductive Spells : List UInt8 → List UInt8 → Prop
  | nil : Spells [] []
  | plain {c : UInt8} {body s : List UInt8} :
      standsForItself c = true → Spells body s → Spells (c :: body) (c :: s)
  | escaped {body s : List UInt8} (c : UInt8) :
      Spells body s → Spells (escapeCharacter c ++ body) (c :: s)

theorem Spells.of_plain {s : List UInt8} (h : ∀ c ∈ s, standsForItself c = true) : Spells s s := by
  induction s with
  | nil => exact .nil
  | cons c s ih =>
    exact .plain (h c List.mem_cons_self) (ih fun d hd => h d (List.mem_cons_of_mem _ hd))

theorem Spells.of_escapes (s : List UInt8) : Spells (s.flatMap escapeCharacter) s := by
  induction s with
  | nil => exact .nil
  | cons c s ih => exact .escaped c ih

theorem Spells.passes {body s : List UInt8} (h : Spells body s) :
    (⟨true, false, false⟩ : Scan).Passes body ⟨true, false, false⟩ := by
  induction h with
  | nil => exact .nil _
  | @plain c body s hc _ ih =>
    obtain ⟨hquote, hescape, -⟩ := standsForItself_iff.1 hc
    have hstep : (⟨true, false, false⟩ : Scan).step c = some ⟨true, false, false⟩ := by
      simp [Scan.step, hquote, hescape]
    exact .cons hstep ih
  | escaped c _ ih =>
    have hesc : ∀ c, (⟨true, false, false⟩ : Scan).Passes (escapeCharacter c) ⟨true, false, false⟩ := by
      unfold Scan.Passes
      apply forall_byte
      decide +kernel
    exact (hesc c).append ih

/-- **A quoted string is one token.** -/
theorem Spells.closed {body s : List UInt8} (h : Spells body s) :
    Closed (ch '"' :: body ++ [ch '"']) :=
  (Scan.Passes.cons rfl h.passes).append (.cons rfl (.nil _))

/-- An escape sequence is a character that stands for itself, a backslash with a character that
`unescapeCharacter` undoes, or `\x` with the digits of the byte. -/
theorem escapeCharacter_cases (c : UInt8) :
    (escapeCharacter c = [c] ∧ standsForItself c = true) ∨
    (∃ x, escapeCharacter c = [ch '\\', x] ∧ x ≠ 0 ∧ x ≠ ch 'x' ∧ unescapeCharacter x = [c]) ∨
    (∃ high low, escapeCharacter c = [ch '\\', ch 'x', high, low] ∧ high ≠ 0 ∧ low ≠ 0 ∧
      uCxAtUtilHexToByte high low = some c) := by
  have hcases : ∀ c,
      (escapeCharacter c = [c] ∧ standsForItself c = true) ∨
      (escapeCharacter c = [ch '\\', (escapeCharacter c).getD 1 0] ∧
        (escapeCharacter c).getD 1 0 ≠ 0 ∧ (escapeCharacter c).getD 1 0 ≠ ch 'x' ∧
        unescapeCharacter ((escapeCharacter c).getD 1 0) = [c]) ∨
      (escapeCharacter c = [ch '\\', ch 'x', nibbleToHex (c >>> 4), nibbleToHex (c &&& 0x0F)] ∧
        nibbleToHex (c >>> 4) ≠ 0 ∧ nibbleToHex (c &&& 0x0F) ≠ 0 ∧
        uCxAtUtilHexToByte (nibbleToHex (c >>> 4)) (nibbleToHex (c &&& 0x0F)) = some c) := by
    apply forall_byte
    decide +kernel
  rcases hcases c with h | h | h
  · exact .inl h
  · exact .inr (.inl ⟨_, h⟩)
  · exact .inr (.inr ⟨_, _, h⟩)

theorem isprint_escapeCharacter {c d : UInt8} (h : d ∈ escapeCharacter c) : isprint d = true := by
  have hall : ∀ c, (escapeCharacter c).all isprint = true := by
    apply forall_byte
    decide +kernel
  exact List.all_eq_true.1 (hall c) d h

/-- The bytes from an index on. -/
theorem getD_of_drop {m cs : List UInt8} {p : Nat} (h : m.drop p = cs) (i : Nat) :
    m.getD (p + i) 0 = cs.getD i 0 := by
  rw [← h, List.getD_eq_getElem?_getD, List.getD_eq_getElem?_getD, List.getElem?_drop]

theorem unescapeTurn_plain {m cs : List UInt8} {p : Nat} {c : UInt8} (h : m.drop p = c :: cs)
    (hc : standsForItself c = true) : unescapeTurn m p = ([c], 1) := by
  obtain ⟨-, hescape, -⟩ := standsForItself_iff.1 hc
  have h0 := getD_of_drop h 0
  simp only [Nat.add_zero, List.getD_cons_zero] at h0
  rw [unescapeTurn, h0, if_neg fun h => hescape h.1]

/-- A turn of the loop undoes an escape sequence. -/
theorem unescapeTurn_escaped {m cs : List UInt8} {p : Nat} (c : UInt8)
    (h : m.drop p = escapeCharacter c ++ cs) :
    unescapeTurn m p = ([c], (escapeCharacter c).length) := by
  rcases escapeCharacter_cases c with ⟨he, hc⟩ | ⟨x, he, hx, hxx, hu⟩ | ⟨high, low, he, hh, hl, hb⟩
  · rw [he] at h ⊢
    exact unescapeTurn_plain h hc
  · rw [he] at h ⊢
    have h0 := getD_of_drop h 0
    have h1 := getD_of_drop h 1
    simp only [Nat.add_zero, List.cons_append, List.getD_cons_zero, List.getD_cons_succ] at h0 h1
    rw [unescapeTurn, h0, h1, if_pos ⟨rfl, hx⟩, if_neg hxx, hu]
    rfl
  · rw [he] at h ⊢
    have h0 := getD_of_drop h 0
    have h1 := getD_of_drop h 1
    have h2 := getD_of_drop h 2
    have h3 := getD_of_drop h 3
    simp only [Nat.add_zero, List.cons_append, List.getD_cons_zero, List.getD_cons_succ] at h0 h1 h2 h3
    rw [unescapeTurn, h0, h1, h2, h3, if_pos ⟨rfl, by decide⟩, if_pos rfl, if_pos ⟨hh, hl⟩, hb]
    rfl

/-- The first character of an escape sequence is not the terminator. -/
theorem escapeCharacter_head (c : UInt8) : ∃ d cs, escapeCharacter c = d :: cs ∧ d ≠ 0 := by
  rcases escapeCharacter_cases c with ⟨he, hc⟩ | ⟨x, he, -⟩ | ⟨high, low, he, -⟩
  · exact ⟨c, [], he, (standsForItself_iff.1 hc).2.2⟩
  · exact ⟨_, _, he, by decide⟩
  · exact ⟨_, _, he, by decide⟩

theorem drop_set_of_lt {m : List UInt8} {w p : Nat} (b : UInt8) (h : w < p) :
    (m.set w b).drop p = m.drop p := by
  rw [List.drop_set, if_pos h]

/-- A turn that writes one character for those it reads. -/
theorem unescapeLoop_turn {n : Nat} {m e rest : List UInt8} {pRead pWrite : Nat} {c : UInt8}
    (hm : m.drop pRead = e ++ rest) (he : ∃ d cs, e = d :: cs ∧ d ≠ 0)
    (ht : unescapeTurn m pRead = ([c], e.length)) (hw : pWrite ≤ pRead) :
    unescapeLoop (n + 1) m pRead pWrite =
        unescapeLoop n (m.set pWrite c) (pRead + e.length) (pWrite + 1) ∧
      (m.set pWrite c).drop (pRead + e.length) = rest := by
  obtain ⟨d, cs, rfl, hd⟩ := he
  have h0 := getD_of_drop hm 0
  simp only [Nat.add_zero, List.cons_append, List.getD_cons_zero] at h0
  constructor
  · rw [unescapeLoop, if_neg (by rw [h0]; exact hd), ht]
    rfl
  · rw [drop_set_of_lt _ (by simp only [List.length_cons]; omega), ← List.drop_drop, hm,
      List.drop_left]

/-- The writes stay behind the reads. -/
theorem unescapeLoop_spells {body s post : List UInt8} (h : Spells body s) {n : Nat}
    {m : List UInt8} {pRead pWrite : Nat} (hm : m.drop pRead = body ++ 0 :: post)
    (hw : pWrite ≤ pRead) (hn : body.length ≤ n) :
    unescapeLoop n m pRead pWrite = (store m pWrite s, pWrite + s.length) := by
  have hstep : ∀ {c : UInt8} {e body s : List UInt8} {n pRead pWrite : Nat} {m : List UInt8},
      (∃ d cs, e = d :: cs ∧ d ≠ 0) → m.drop pRead = e ++ (body ++ 0 :: post) →
      unescapeTurn m pRead = ([c], e.length) → pWrite ≤ pRead → (e ++ body).length ≤ n →
      (∀ {n : Nat} {m : List UInt8} {pRead pWrite : Nat}, m.drop pRead = body ++ 0 :: post →
        pWrite ≤ pRead → body.length ≤ n →
        unescapeLoop n m pRead pWrite = (store m pWrite s, pWrite + s.length)) →
      unescapeLoop n m pRead pWrite = (store m pWrite (c :: s), pWrite + (c :: s).length) := by
    intro c e body s n pRead pWrite m he hm ht hw hn ih
    have hpos : 0 < e.length := by
      obtain ⟨d, cs, rfl, -⟩ := he
      simp
    rw [List.length_append] at hn
    obtain ⟨n, rfl⟩ : ∃ k, n = k + 1 := ⟨n - 1, by omega⟩
    obtain ⟨hturn, hdrop⟩ := unescapeLoop_turn (n := n) hm he ht hw
    rw [hturn, ih hdrop (by omega) (by omega), List.length_cons]
    simp only [store, Prod.mk.injEq, true_and]
    omega
  induction h generalizing n m pRead pWrite with
  | nil =>
    have h0 := getD_of_drop hm 0
    simp only [Nat.add_zero, List.nil_append, List.getD_cons_zero] at h0
    cases n with
    | zero => rfl
    | succ n =>
      rw [unescapeLoop, if_pos h0]
      rfl
  | @plain c body s hc _ ih =>
    exact hstep ⟨c, [], rfl, (standsForItself_iff.1 hc).2.2⟩ hm (unescapeTurn_plain hm hc) hw hn ih
  | @escaped body s c _ ih =>
    rw [List.append_assoc] at hm
    exact hstep (escapeCharacter_head c) hm (unescapeTurn_escaped c hm) hw hn ih

/-- No string is longer than what stands for it. -/
theorem Spells.length_le {body s : List UInt8} (h : Spells body s) : s.length ≤ body.length := by
  induction h with
  | nil => exact Nat.le_refl _
  | plain _ _ ih => simpa using ih
  | escaped c _ ih =>
    obtain ⟨d, cs, he, -⟩ := escapeCharacter_head c
    simp only [he, List.length_cons, List.length_append]
    omega

/-- **`unescapeString` decodes an escaped string in its place.** -/
theorem Spells.unescape {body s : List UInt8} (h : Spells body s) (pre post : List UInt8) :
    ∃ gap, (s ++ 0 :: gap).length = (body ++ [0]).length ∧
      unescapeString (pre ++ body ++ 0 :: post) pre.length =
        (pre ++ (s ++ 0 :: gap) ++ post, s.length) := by
  have hle := h.length_le
  have hdrop : (pre ++ body ++ 0 :: post).drop pre.length = body ++ 0 :: post := by
    rw [List.append_assoc, List.drop_left]
  have hloop := unescapeLoop_spells h hdrop (Nat.le_refl _)
    (n := (pre ++ body ++ 0 :: post).length - pre.length) (by simp)
  -- the part of the body that the string takes, and the rest of it
  obtain ⟨mid, gap, hmid, hlen⟩ : ∃ mid gap, body ++ [0] = mid ++ gap ∧ mid.length = (s ++ [0]).length :=
    ⟨_, _, (List.take_append_drop (s.length + 1) (body ++ [0])).symm, by simp; omega⟩
  refine ⟨gap, ?_, ?_⟩
  · simp only [hmid, List.length_append, hlen, List.length_cons, List.length_nil]
    omega
  · have hset : (store (pre ++ body ++ 0 :: post) pre.length s).set (pre.length + s.length) 0 =
        store (pre ++ body ++ 0 :: post) pre.length (s ++ [0]) := by
      rw [store_append]
      rfl
    have hsplit : pre ++ body ++ 0 :: post = pre ++ mid ++ (gap ++ post) := by
      rw [List.append_assoc pre mid, ← List.append_assoc mid, ← hmid]
      simp
    simp only [unescapeString, hloop, Nat.add_sub_cancel_left, hset]
    rw [hsplit, store_mid _ _ _ _ _ rfl hlen]
    simp

/-! ## Writing -/

/-- The escaped string, when it fits. -/
theorem writeEscLoop_eq (outBufSize pos : Nat) (s : List UInt8) (hpos : pos + 1 < outBufSize) :
    writeEscLoop outBufSize pos s =
      if pos + (s.flatMap escapeCharacter).length + 1 < outBufSize then
        some (s.flatMap escapeCharacter) else none := by
  induction s generalizing pos with
  | nil =>
    rw [writeEscLoop, if_pos (by simpa using hpos)]
    rfl
  | cons c s ih =>
    rw [writeEscLoop, List.flatMap_cons, List.length_append]
    by_cases hfit : pos + (escapeCharacter c).length + 1 < outBufSize
    · rw [if_neg (by omega), ih _ hfit]
      by_cases hall : pos + (escapeCharacter c).length + (s.flatMap escapeCharacter).length + 1 <
          outBufSize
      · rw [if_pos hall, if_pos (by omega)]
        rfl
      · rw [if_neg hall, if_neg (by omega)]
        rfl
    · rw [if_pos (by omega), if_neg (by omega)]

/-- The escaped form of a string between its quotes. -/
def escapedForm (s : List UInt8) : List UInt8 := ch '"' :: s.flatMap escapeCharacter ++ [ch '"']

theorem writeEscString_eq (s : List UInt8) {outBufSize : Nat} (h : 3 ≤ outBufSize) :
    uCxAtUtilWriteEscString s outBufSize =
      if (escapedForm s).length < outBufSize then some (escapedForm s) else none := by
  have hlen : (escapedForm s).length = 1 + (s.flatMap escapeCharacter).length + 1 := by
    simp only [escapedForm, List.length_append, List.length_cons, List.length_nil]
    omega
  rw [uCxAtUtilWriteEscString, if_neg (by omega), writeEscLoop_eq _ _ _ (by omega), hlen]
  split <;> rfl
