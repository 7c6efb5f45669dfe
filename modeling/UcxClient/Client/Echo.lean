import UcxClient.Client.Overlong
import UcxClient.Client.Wait
import UcxClient.Client.Transaction

/-!
# The echo of a command

A command whose response has no prefix takes the first line for it that is neither a status nor starts
like a URC or like the echo of a command with `+`. `echo_skipped_iff`: the response that follows an echo
is returned exactly if the parser passes over what the line buffer holds of the echo, and takes the
response for one. The echo of `ATI9` is returned as the response (`echo_returned`).
-/

open UrcQueue AtClient

namespace AtState

/-- A line of the input: its text and the character that ends it. -/
structure TextLine where
  bytes : List UInt8
  eol : UInt8
  text : IsText bytes
  ends : isEol eol = true

namespace TextLine

/-- The characters of the line. -/
def chars (l : TextLine) : List UInt8 := l.bytes.filter isprint

/-- What a line buffer of `n` bytes holds of the line at its end. -/
def shown (n : Nat) (l : TextLine) : List UInt8 := leftOver n l.chars

/-- The bytes of the line. -/
def stream (l : TextLine) : List UInt8 := l.bytes ++ [l.eol]

theorem length_shown {n : Nat} (hn : 0 < n) (l : TextLine) : (l.shown n).length < n := by
  have hmod := Nat.mod_lt l.chars.length hn
  have hdiv := Nat.div_add_mod l.chars.length n
  rw [Nat.mul_comm] at hdiv
  rw [shown, leftOver, List.length_drop]
  omega

theorem shown_of_short {n : Nat} {l : TextLine} (h : l.chars.length < n) : l.shown n = l.chars :=
  leftOver_of_lt h

theorem isprint_shown {n : Nat} {l : TextLine} : ∀ b ∈ l.shown n, isprint b = true := fun _ hb =>
  (List.mem_filter.1 (List.mem_of_mem_drop hb)).2

end TextLine

/-! ## Lines without a prefix -/

/-- The parser passes over the line while it waits for a response without a prefix: the line is empty,
starts like a URC or like the echo of a command with `+`, or is an `ERROR` line that records no status. -/
def PassedOver (line : List UInt8) : Prop :=
  line = [] ∨ isUrcLine line = true ∨ (text "AT+").isPrefixOf line = true ∨
  ((text "ERROR").isPrefixOf line = true ∧ (errorStatus line = none ∨ errorStatus line = some noStatus))

instance (line : List UInt8) : Decidable (PassedOver line) :=
  inferInstanceAs (Decidable (_ ∨ _ ∨ _ ∨ _ ∧ (_ ∨ _)))

/-- The kinds of lines without a prefix. -/
theorem lineKind_plain {pExpectedRsp : Option (List UInt8)}
    (hp : pExpectedRsp = none ∨ pExpectedRsp = some []) {line : List UInt8}
    (hline : ∀ b ∈ line, isprint b = true) : lineKind true pExpectedRsp line =
      if line = [] then .other
      else if line = text "OK" then .status 0
      else if (text "ERROR").isPrefixOf line then
        match errorStatus line with
        | some status => .status status
        | none => .other
      else if isUrcLine line then .urc
      else if (text "AT+").isPrefixOf line then .other
      else .rsp line := by
  have hexp : expectedBy pExpectedRsp line = false := by
    rcases hp with rfl | rfl <;> rfl
  cases line with
  | nil => rfl
  | cons c cs =>
    have hc : ¬(c = ch '\n' ∨ c = ch '\r') := by
      have hpr := hline c List.mem_cons_self
      rintro (rfl | rfl) <;> exact absurd hpr (by decide)
    have hall : (c :: cs).all (fun b => decide (b = ch '\n' ∨ b = ch '\r')) = false := by simp [hc]
    rw [lineKind, hall, if_neg Bool.false_ne_true, if_pos rfl, cmdKind, hexp, if_neg Bool.false_ne_true,
      if_neg (List.cons_ne_nil c cs)]
    by_cases hok : c :: cs = text "OK"
    · rw [if_pos hok, if_pos hok]
    rw [if_neg hok, if_neg hok]
    by_cases herr : (text "ERROR").isPrefixOf (c :: cs) = true
    · have hurc : isUrcLine (c :: cs) = false := by
        have hE : c = ch 'E' := by
          have := (Bool.and_eq_true_iff.1 herr).1
          exact (beq_iff_eq.1 this).symm
        subst hE
        rfl
      rw [if_pos herr, if_pos herr, urcKind, hurc]
      rfl
    rw [if_neg herr, if_neg herr, urcKind]
    cases isUrcLine (c :: cs) with
    | true => rfl
    | false =>
      by_cases hat : (text "AT+").isPrefixOf (c :: cs) = true
      · simp [hat]
      · simp [hat]

/-- A response without a prefix is the whole line. -/
theorem rsp_of_plain {pExpectedRsp : Option (List UInt8)}
    (hp : pExpectedRsp = none ∨ pExpectedRsp = some []) {line p : List UInt8}
    (hline : ∀ b ∈ line, isprint b = true) (h : lineKind true pExpectedRsp line = .rsp p) :
    line = p ∧ (text "AT+").isPrefixOf line = false ∧ (text "ERROR").isPrefixOf line = false := by
  rw [lineKind_plain hp hline] at h
  split at h
  · cases h
  split at h
  · cases h
  split at h
  · split at h <;> cases h
  · next herr =>
    split at h
    · cases h
    split at h
    · cases h
    · next hat => exact ⟨LineKind.rsp.inj h, eq_false_of_ne_true hat, eq_false_of_ne_true herr⟩

/-- What `PassedOver` says of the kind of a line. -/
theorem passedOver_iff_kind {pExpectedRsp : Option (List UInt8)}
    (hp : pExpectedRsp = none ∨ pExpectedRsp = some []) {line : List UInt8}
    (hline : ∀ b ∈ line, isprint b = true) : PassedOver line ↔
      lineKind true pExpectedRsp line = .urc ∨ lineKind true pExpectedRsp line = .other ∨
      lineKind true pExpectedRsp line = .status noStatus := by
  rw [lineKind_plain hp hline]
  by_cases hnil : line = []
  · simp [PassedOver, hnil]
  by_cases hok : line = text "OK"
  · subst hok
    decide
  by_cases herr : (text "ERROR").isPrefixOf line = true
  · obtain ⟨cs, rfl⟩ := List.isPrefixOf_iff_prefix.1 herr
    have hurc : isUrcLine (text "ERROR" ++ cs) = false := rfl
    have hat : (text "AT+").isPrefixOf (text "ERROR" ++ cs) = false := rfl
    simp only [PassedOver, hnil, hok, herr, hurc, hat, if_true, if_false]
    cases errorStatus (text "ERROR" ++ cs) with
    | none => simp
    | some v => simp
  rw [if_neg hnil, if_neg hok, if_neg herr]
  by_cases hurc : isUrcLine line = true
  · simp [PassedOver, hurc]
  by_cases hat : (text "AT+").isPrefixOf line = true
  · simp [PassedOver, hurc, hat]
  · simp [PassedOver, hnil, herr, hurc, hat]

/-! ## A line of the input -/

/-- A client that awaits a response, at the start of a line. -/
structure AtLine (c : AtClient) : Prop where
  executingCmd : c.executingCmd = true
  status : c.status = noStatus
  isBinaryRx : c.isBinaryRx = false
  rxBuffer : c.rxBuffer = []
  room : 0 < c.rxBufferLen

/-- A response ends the wait behind its line. -/
def Outcome (t : Nat) (s : AtState) (l : TextLine) (rest : List UInt8) : LineKind → Prop
  | .rsp p => firstRsp t s (l.stream ++ rest) =
      some ({ s with client := { s.client with pRspParams := some p } }, rest)
  | .status status => firstRsp t s (l.stream ++ rest) =
      firstRsp t { s with client := { s.client with status } } rest
  | .urc => ∃ urcQueue, firstRsp t s (l.stream ++ rest) =
      firstRsp t { s with client := { s.client with urcQueue } } rest
  | .other => firstRsp t s (l.stream ++ rest) = firstRsp t s rest

section
variable {t : Nat} {s : AtState}

theorem withLine_nil (hbuf : s.client.rxBuffer = []) : s.withLine [] = s := by
  rw [withLine, ← hbuf]

theorem AtLine.outcome (hw : AtLine s.client) (l : TextLine) (rest : List UInt8) :
    Outcome t s l rest (lineKind true s.client.pExpectedRsp (l.shown s.client.rxBufferLen)) := by
  have htext := rxBytes_text t hw.isBinaryRx hw.rxBuffer hw.room l.text
  have hpass : firstRsp t s (l.stream ++ rest) =
      firstRsp t (s.withLine (l.shown s.client.rxBufferLen)) (l.eol :: rest) := by
    rw [TextLine.stream, List.append_assoc, firstRsp_append (by rw [htext]) ?_, htext]
    · rfl
    · intro pre hpre
      have hpre' : IsText pre := fun b hb => l.text b (hpre.subset hb)
      rw [rxBytes_text t hw.isBinaryRx hw.rxBuffer hw.room hpre']
      exact hw.status
  have heol := rxStep_eol t hw.isBinaryRx (l.shown s.client.rxBufferLen) l.ends
  rw [hw.executingCmd] at heol
  have hcons := firstRsp_cons (t := t) (s := s.withLine (l.shown s.client.rxBufferLen)) hw.status l.eol rest
  rw [← hpass, heol] at hcons
  have hback : ({ s with client := { s.client with rxBuffer := [] } } : AtState) = s :=
    withLine_nil hw.rxBuffer
  cases hk : lineKind true s.client.pExpectedRsp (l.shown s.client.rxBufferLen) with
  | rsp p =>
    rw [hk] at hcons
    rw [Outcome, hcons]
    simp only [onLine, lineDone, lineRet, withLine, reduceCtorEq, or_true, if_true, if_false, ← hw.rxBuffer]
  | status v =>
    rw [hk] at hcons
    rw [Outcome, hcons]
    simp only [onLine, lineDone, lineRet, withLine, reduceCtorEq, true_or, if_true, if_false, ← hw.rxBuffer,
      Option.some.injEq]
  | urc =>
    rw [hk] at hcons
    simp only [onLine, withLine] at hcons
    cases hq : (uCxAtUrcQueueEnqueueBegin t s.client.urcQueue (l.shown s.client.rxBufferLen)).1 with
    | true =>
      simp only [hq, if_true, lineDone, lineRet, reduceCtorEq, or_self, if_false, ← hw.rxBuffer] at hcons
      exact ⟨_, hcons⟩
    | false =>
      simp only [hq, Bool.false_eq_true, lineDone, lineRet, reduceCtorEq, or_self, if_false,
        ← hw.rxBuffer] at hcons
      exact ⟨_, hcons⟩
  | other =>
    rw [hk] at hcons
    rw [Outcome, hcons]
    simp only [onLine, lineDone, lineRet, withLine, reduceCtorEq, or_self, if_false, ← hw.rxBuffer]

/-- Lines that the parser passes over change only the queue. -/
theorem firstRsp_lines (hw : AtLine s.client)
    (hp : s.client.pExpectedRsp = none ∨ s.client.pExpectedRsp = some []) {ls : List TextLine}
    (h : ∀ l ∈ ls, PassedOver (l.shown s.client.rxBufferLen)) (rest : List UInt8) :
    ∃ urcQueue, firstRsp t s (ls.flatMap TextLine.stream ++ rest) =
      firstRsp t { s with client := { s.client with urcQueue } } rest := by
  induction ls generalizing s with
  | nil => exact ⟨s.client.urcQueue, rfl⟩
  | cons l ls ih =>
    have hls := fun l' hl' => h l' (List.mem_cons_of_mem l hl')
    have hout := hw.outcome (t := t) l (ls.flatMap TextLine.stream ++ rest)
    rw [List.flatMap_cons, List.append_assoc]
    rcases (passedOver_iff_kind hp l.isprint_shown).1 (h l List.mem_cons_self) with hk | hk | hk
    · rw [hk] at hout
      obtain ⟨urcQueue, hq⟩ := hout
      rw [hq]
      exact ih (s := { s with client := { s.client with urcQueue } })
        ⟨hw.executingCmd, hw.status, hw.isBinaryRx, hw.rxBuffer, hw.room⟩ hp hls
    · rw [hk] at hout
      rw [show firstRsp t s _ = _ from hout]
      exact ih hw hp hls
    · have hsame : ({ s with client := { s.client with status := noStatus } } : AtState) = s := by
        rw [← hw.status]
      rw [hk, Outcome, hsame] at hout
      rw [hout]
      exact ih hw hp hls

/-! ## A command and its response -/

/-- The line is no URC and no final status OK, and it is not empty. -/
def Unprefixed (line : List UInt8) : Prop := line ≠ [] ∧ isUrcLine line = false ∧ line ≠ text "OK"

/-- The parser takes the line for a response without a prefix, and a line buffer of `n` bytes holds it. -/
def Taken (n : Nat) (line : List UInt8) : Prop :=
  line.length < n ∧ (text "AT+").isPrefixOf line = false ∧ (text "ERROR").isPrefixOf line = false

instance (line : List UInt8) : Decidable (Unprefixed line) := inferInstanceAs (Decidable (_ ∧ _ ∧ _))

instance (n : Nat) (line : List UInt8) : Decidable (Taken n line) :=
  inferInstanceAs (Decidable (_ ∧ _ ∧ _))

/-- The response without a prefix is returned exactly if it is taken for one. -/
theorem firstRsp_response_iff (hw : AtLine s.client)
    (hp : s.client.pExpectedRsp = none ∨ s.client.pExpectedRsp = some []) {l : TextLine}
    (hl : Unprefixed l.chars) (rest : List UInt8) :
    (∃ s', firstRsp t s (l.stream ++ rest) = some (s', rest) ∧ s'.client.pRspParams = some l.chars) ↔
      Taken s.client.rxBufferLen l.chars := by
  have hout := hw.outcome (t := t) l rest
  have hkind := lineKind_plain hp (l.isprint_shown (n := s.client.rxBufferLen))
  obtain ⟨hnil, hurc, hok⟩ := hl
  constructor
  · intro ⟨s', hfirst, hchars⟩
    have hrsp : lineKind true s.client.pExpectedRsp (l.shown s.client.rxBufferLen) = .rsp l.chars := by
      -- any other line leaves the response to what follows it
      cases hk : lineKind true s.client.pExpectedRsp (l.shown s.client.rxBufferLen) with
      | rsp p =>
        rw [hk, Outcome, hfirst] at hout
        obtain ⟨rfl, -⟩ := Prod.mk.inj (Option.some.inj hout)
        exact congrArg LineKind.rsp (Option.some.inj hchars)
      | status v =>
        rw [hk, Outcome, hfirst] at hout
        exact absurd (length_of_firstRsp hout.symm) (Nat.lt_irrefl _)
      | urc =>
        rw [hk] at hout
        obtain ⟨urcQueue, hq⟩ := hout
        exact absurd (length_of_firstRsp (hq.symm.trans hfirst)) (Nat.lt_irrefl _)
      | other =>
        rw [hk, Outcome, hfirst] at hout
        exact absurd (length_of_firstRsp hout.symm) (Nat.lt_irrefl _)
    obtain ⟨hsame, hat, herr⟩ := rsp_of_plain hp l.isprint_shown hrsp
    have hlen := l.length_shown hw.room
    rw [hsame] at hlen hat herr
    exact ⟨hlen, hat, herr⟩
  · intro ⟨hlen, hat, herr⟩
    have hshown := TextLine.shown_of_short hlen
    rw [hshown, if_neg hnil, if_neg hok, if_neg (by simp [herr]), if_neg (by simp [hurc]),
      if_neg (by simp [hat])] at hkind
    rw [hshown, hkind] at hout
    exact ⟨_, hout, rfl⟩

/-- A line that is not passed over ends the wait, or the input behind it does not matter. -/
theorem firstRsp_stops (hw : AtLine s.client)
    (hp : s.client.pExpectedRsp = none ∨ s.client.pExpectedRsp = some []) {l : TextLine}
    (hl : ¬PassedOver (l.shown s.client.rxBufferLen)) {rest rest' : List UInt8} {s' : AtState}
    (h : firstRsp t s (l.stream ++ rest) = some (s', rest')) : rest' = rest := by
  have hout := hw.outcome (t := t) l rest
  rw [passedOver_iff_kind hp l.isprint_shown, not_or, not_or] at hl
  obtain ⟨hurc, hother, hstatus⟩ := hl
  cases hk : lineKind true s.client.pExpectedRsp (l.shown s.client.rxBufferLen) with
  | rsp p =>
    rw [hk, Outcome, h] at hout
    exact (Prod.mk.inj (Option.some.inj hout)).2
  | status v =>
    rw [hk, Outcome, h] at hout
    have hv : v = noStatus := status_of_firstRsp hout.symm
    exact absurd (hv ▸ hk) hstatus
  | urc => exact absurd hk hurc
  | other => exact absurd hk hother

/-- **The response that follows an echo is returned, and the echo is not**, exactly if the parser passes
over what the line buffer holds of the echo and takes the response for one. URCs, empty lines and other
lines that are passed over may come before and between them. -/
theorem echo_skipped_iff (t : Nat) {s : AtState} (hi : s.client.Idle) (hn : 0 < s.client.rxBufferLen)
    (now : Int) {pExpectedRsp : Option (List UInt8)}
    (hp : pExpectedRsp = none ∨ pExpectedRsp = some []) (buf : BinaryResponseBuf)
    {before between : List TextLine} (echo rsp : TextLine)
    (hothers : ∀ l ∈ before ++ between, PassedOver (l.shown s.client.rxBufferLen))
    (hrsp : Unprefixed rsp.chars) (rest : List UInt8) {h : Host}
    (hh : Transaction.Arrives (s.cmdBeginF t now).client
      ((before ++ echo :: between ++ [rsp]).flatMap TextLine.stream ++ rest) h) :
    (∃ s' h', (s.cmdBeginF t now).uCxAtClientCmdGetRspParamLine t pExpectedRsp buf h =
        some (some rsp.chars, s', h') ∧ h'.uart.rx = rest) ↔
      PassedOver (echo.shown s.client.rxBufferLen) ∧ Taken s.client.rxBufferLen rsp.chars := by
  obtain ⟨s0, hs0⟩ : ∃ s0 : AtState, s0 = { s.cmdBeginF t now with
    client := (s.cmdBeginF t now).client.expectRsp pExpectedRsp buf.pBuffer buf.pBufferLength } := ⟨_, rfl⟩
  have hw : AtLine s0.client := hs0 ▸ ⟨rfl, rfl, hi.isBinaryRx, hi.rxBuffer, hn⟩
  have hlen0 : s0.client.rxBufferLen = s.client.rxBufferLen := hs0 ▸ rfl
  have hp0 : s0.client.pExpectedRsp = none ∨ s0.client.pExpectedRsp = some [] := hs0 ▸ hp
  have hok : RxOk s0.client := hs0 ▸ rxOk_of_not_binary hi.isBinaryRx hi.rxHeaderCount
  have htime : ∀ n ∈ h.clock, s0.client.timedOut n = false := hs0 ▸ hh.inTime
  rw [uCxAtClientCmdGetRspParamLine, ← hs0,
    rspLoop_iff_firstRsp hok (hh.rx ▸ hh.delivers) hh.clock htime, hh.rx]
  rw [← hlen0] at hothers ⊢
  by_cases hecho : PassedOver (echo.shown s0.client.rxBufferLen)
  · have hall : ∀ l ∈ before ++ echo :: between, PassedOver (l.shown s0.client.rxBufferLen) := by
      intro l hl
      simp only [List.mem_append, List.mem_cons] at hl
      rcases hl with hl | rfl | hl
      · exact hothers l (List.mem_append_left _ hl)
      · exact hecho
      · exact hothers l (List.mem_append_right _ hl)
    obtain ⟨urcQueue, hq⟩ := firstRsp_lines (t := t) hw hp0 hall (rsp.stream ++ rest)
    rw [List.flatMap_append, List.flatMap_singleton, List.append_assoc, hq, and_iff_right hecho]
    exact firstRsp_response_iff (s := { s0 with client := { s0.client with urcQueue } })
      ⟨hw.executingCmd, hw.status, hw.isBinaryRx, hw.rxBuffer, hw.room⟩ hp0 hrsp rest
  · -- the wait ends with the echo, before the response
    obtain ⟨urcQueue, hq⟩ := firstRsp_lines (t := t) hw hp0
      (fun l hl => hothers l (List.mem_append_left _ hl))
      (echo.stream ++ (between.flatMap TextLine.stream ++ (rsp.stream ++ rest)))
    have hsplit : (before ++ echo :: between ++ [rsp]).flatMap TextLine.stream ++ rest =
        before.flatMap TextLine.stream ++
          (echo.stream ++ (between.flatMap TextLine.stream ++ (rsp.stream ++ rest))) := by
      simp [List.flatMap_append]
    refine iff_of_false ?_ fun h => hecho h.1
    rintro ⟨s', hfirst, -⟩
    rw [hsplit, hq] at hfirst
    have hrest := firstRsp_stops (s := { s0 with client := { s0.client with urcQueue } })
      ⟨hw.executingCmd, hw.status, hw.isBinaryRx, hw.rxBuffer, hw.room⟩ hp0 hecho hfirst
    have hlen := congrArg List.length hrest
    simp only [List.length_append, TextLine.stream, List.length_singleton] at hlen
    omega

end

def gmmEcho : TextLine := ⟨text "AT+GMM", ch '\r', by decide +kernel, by decide⟩

def gmmRsp : TextLine := ⟨text "NORA-W36", ch '\r', by decide +kernel, by decide⟩

/-- The echo of `AT+GMM` is passed over. -/
theorem echo_skipped_iff_gmm : ∃ s' h',
    ((Transaction.client 64 64).cmdBeginF 0 0).uCxAtClientCmdGetRspParamLine 0 (some []) ⟨none, none⟩
      (input ([gmmEcho, gmmRsp].flatMap TextLine.stream ++ [])) =
        some (some gmmRsp.chars, s', h') ∧ h'.uart.rx = [] := by
  have hothers : ∀ l ∈ ([] : List TextLine) ++ [],
      PassedOver (l.shown (Transaction.client 64 64).client.rxBufferLen) := nofun
  exact (echo_skipped_iff 0 (Transaction.ready_client 64 64).idle (by decide) 0 (.inr rfl) ⟨none, none⟩
    gmmEcho gmmRsp hothers (by decide +kernel) [] (Transaction.arrives_input 64 64 _)).2
    ⟨by decide +kernel, by decide +kernel⟩

/-- The echo of `ATI9` is returned as its response. -/
theorem echo_returned :
    (((Transaction.client 64 64).cmdBeginF 0 0).uCxAtClientCmdGetRspParamLine 0 (some []) ⟨none, none⟩
      (input (text "ATI9\r\"2.0.0\",\"uConnectX\"\r"))).map (fun x => (x.1, x.2.2.uart.rx)) =
    some (some (text "ATI9"), text "\"2.0.0\",\"uConnectX\"\r") := by
  decide +kernel

end AtState
