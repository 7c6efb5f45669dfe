import UcxClient.Client.RspParams
import UcxClient.Client.Wait

/-!
# The awaited response

A call that expects a prefix returns a response with it. But a line without any prefix is returned as
well (`Stray`), because only the lines that start like a URC are told apart. `awaited_only_iff`: of a
stream whatever the call returns comes from a line with the prefix exactly if no stray line is received up
to the first response.
-/

open UrcQueue AtClient

namespace AtState

/-- The lines that the bytes complete. -/
def linesOf (t : Nat) (s : AtState) : List UInt8 → List (List UInt8)
  | [] => []
  | b :: bs =>
    (if s.LineEnds (.got [b]) then [s.client.rxBuffer] else []) ++
      linesOf t (s.rxStep t (.got [b])).1 bs

/-! ## One byte -/

section
variable {t : Nat} {s : AtState} {b : UInt8}

/-- The payload of a response. -/
theorem rxStep_receiving_rsp (t : Nat) (h : s.client.Receiving .rsp) (b : UInt8) :
    ¬s.LineEnds (.got [b]) ∧
    (s.rxStep t (.got [b])).1.client.pRspParams = s.client.pRspParams ∧
    ((s.rxStep t (.got [b])).2 ≠ some .gotRsp → (s.rxStep t (.got [b])).1.client.Receiving .rsp) := by
  obtain ⟨hbin, hge, hst⟩ := h
  obtain ⟨-, h1, h2, h3, -⟩ := s.takePayload_client [b]
  refine ⟨?_, ?_⟩
  · simp only [LineEnds, hbin, if_true]
    omega
  rw [rxStep_payload hbin hge, readPayload, if_neg (List.cons_ne_nil b [])]
  rcases (s.takePayload [b]).binaryRxNext_cases t with ⟨-, heq⟩ | ⟨-, heq⟩
  · rw [heq]
    exact ⟨takePayload_pRspParams s [b], fun _ => ⟨h1.trans hbin, h2 ▸ hge, h3.trans hst⟩⟩
  · rw [heq]
    simp only [binaryRxDone, h3, hst]
    exact ⟨takePayload_pRspParams s [b], fun h => absurd rfl h⟩

theorem parseLine_rsp (t : Nat) {c : AtClient} {p : List UInt8} (hk : c.bufferedKind = .rsp p) :
    c.parseLine t c.rxBuffer = ({ c with pRspParams := some p }, .gotRsp) := by
  rw [parseLine_eq, show lineKind c.executingCmd c.pExpectedRsp c.rxBuffer = _ from hk]
  rfl

/-- The end of a line that is a response. -/
theorem rxStep_line_rsp (t : Nat) (hends : s.LineEnds (.got [b])) {p : List UInt8}
    (hk : s.client.bufferedKind = .rsp p) :
    (s.rxStep t (.got [b])).1.client.pRspParams = some p ∧
    ((s.rxStep t (.got [b])).2 ≠ some .gotRsp → (s.rxStep t (.got [b])).1.client.Receiving .rsp) := by
  cases hbin : s.client.isBinaryRx with
  | false =>
    simp only [LineEnds, hbin, Bool.false_eq_true, if_false] at hends
    have heol : isEol b = true := hends.2
    rw [rxStep_char hbin, readChar_eol t s heol, parseLine_rsp t hk]
    exact ⟨rfl, fun h => absurd rfl h⟩
  | true =>
    simp only [LineEnds, hbin, if_true, List.length_singleton] at hends
    have hge : ¬(s.storeHeader [b]).client.binaryRx.rxHeaderCount < 2 := by
      simp only [storeHeader, List.length_singleton]
      omega
    obtain ⟨n, -, hn⟩ :=
      (s.storeHeader [b]).startTransfer_eq t (parseLine_rsp (c := (s.storeHeader [b]).client) t hk)
    rw [rxStep_header hbin hends.1, readHeader, if_neg hge]
    rw [hn]
    rcases binaryRxNext_cases t _ with ⟨-, heq⟩ | ⟨-, heq⟩
    · rw [heq]
      exact ⟨rfl, fun _ => ⟨hbin, Nat.not_lt.1 hge, rfl⟩⟩
    · rw [heq]
      exact ⟨rfl, fun h => absurd rfl h⟩

/-- Nothing else brings a response. -/
theorem rxStep_no_rsp (t : Nat) (hok : RxOk s.client) (hr : ¬s.client.Receiving .rsp)
    (hk : s.LineEnds (.got [b]) → ∀ p, s.client.bufferedKind ≠ .rsp p) :
    (s.rxStep t (.got [b])).2 ≠ some .gotRsp ∧ ¬(s.rxStep t (.got [b])).1.client.Receiving .rsp := by
  have heff := rxStep_effect t s (.got [b])
  refine ⟨?_, fun hr' => ?_⟩
  · generalize (s.rxStep t (.got [b])).1 = s' at heff
    generalize (s.rxStep t (.got [b])).2 = ret at heff ⊢
    cases heff with
    | quiet _ hret => rcases hret with rfl | rfl <;> rintro ⟨⟩
    | @line _ c code hbin heol hp =>
      intro hret
      have hcode : code = .gotRsp := by
        unfold lineRet at hret
        split at hret
        · exact Option.some.inj hret
        · cases hret
      obtain ⟨p, hp'⟩ := (parseLine_gotRsp t _ _).1 (congrArg Prod.snd hp |>.trans hcode)
      refine hk ?_ p hp'
      simp [LineEnds, hbin, heol]
    | header => rintro ⟨⟩
    | start hbin hcount hge =>
      rcases hp : (s.storeHeader [b]).client.parseLine t (s.storeHeader [b]).client.rxBuffer with ⟨c, code⟩
      obtain ⟨n, -, hn⟩ := (s.storeHeader [b]).startTransfer_eq t hp
      have hcode : code ≠ .gotRsp := by
        rintro rfl
        obtain ⟨p, hp'⟩ := (parseLine_gotRsp t _ _).1 (congrArg Prod.snd hp)
        refine hk ?_ p hp'
        simp only [LineEnds, hbin, if_true]
        exact ⟨hcount, hge⟩
      rw [hn]
      rcases binaryRxNext_cases t _ with ⟨-, heq⟩ | ⟨-, heq⟩
      · rw [heq]
        rintro ⟨⟩
      · rw [heq]
        rcases setupBinaryTransfer_state t { s.storeHeader [b] with client := c } code n with
          ⟨h, -⟩ | ⟨-, h, -⟩ | ⟨-, h, -⟩ | ⟨-, -, h, -⟩
        · exact absurd h hcode
        all_goals simp [binaryRxDone, h]
    | payload _ hbin hge =>
      obtain ⟨-, -, -, h3, -⟩ := s.takePayload_client [b]
      rcases (s.takePayload [b]).binaryRxNext_cases t with ⟨-, heq⟩ | ⟨-, heq⟩
      · rw [heq]
        rintro ⟨⟩
      · rw [heq]
        cases hst : s.client.binaryRx.state with
        | rsp => exact absurd ⟨hbin, hge, hst⟩ hr
        | urc => simp [binaryRxDone, h3, hst]
        | flush => simp [binaryRxDone, h3, hst]
  · rcases heff.rsp hok hr' with ⟨h, -⟩ | ⟨⟨⟨_, hbytes, hge⟩, hbin, hcount, p, hp⟩, -⟩
    · exact hr h
    · cases hbytes
      refine hk ?_ p hp
      simp only [LineEnds, hbin, if_true]
      exact ⟨hcount, hge⟩

/-! ## The lines up to the first response -/

/-- A read leaves alone what decides about the kind of a line. -/
theorem rxStep_setup (t : Nat) (s : AtState) (r : ReadStatus) :
    (s.rxStep t r).1.client.executingCmd = s.client.executingCmd ∧
    (s.rxStep t r).1.client.pExpectedRsp = s.client.pExpectedRsp := by
  have hsetup := (rxStep_effect t s r).setup
  exact ⟨congrArg Setup.executingCmd hsetup, congrArg Setup.pExpectedRsp hsetup⟩

/-- In the payload of a response no line is completed. -/
theorem firstRsp_receiving (h : s.client.Receiving .rsp) {bs : List UInt8} {s' : AtState}
    {rest : List UInt8} (hfirst : firstRsp t s bs = some (s', rest)) :
    ∃ taken, bs = taken ++ rest ∧ linesOf t s taken = [] ∧
      s'.client.pRspParams = s.client.pRspParams := by
  induction bs generalizing s with
  | nil => cases hfirst
  | cons b bs ih =>
    obtain ⟨hno, hparams, hmore⟩ := rxStep_receiving_rsp t h b
    rw [firstRsp_cons (status_of_firstRsp hfirst)] at hfirst
    split at hfirst
    · obtain ⟨rfl, rfl⟩ := Prod.mk.inj (Option.some.inj hfirst)
      exact ⟨[b], rfl, by rw [linesOf, if_neg hno]; rfl, hparams⟩
    · next hret =>
      obtain ⟨taken, rfl, hlines, hp⟩ := ih (hmore hret) hfirst
      exact ⟨b :: taken, rfl, by rw [linesOf, if_neg hno, hlines]; rfl, hp.trans hparams⟩

/-- **The first response is the last line before it**, and the only one of the lines that is a
response. -/
theorem firstRsp_lines_taken (hok : RxOk s.client) (hr : ¬s.client.Receiving .rsp) {bs : List UInt8}
    {s' : AtState} {rest : List UInt8} (hfirst : firstRsp t s bs = some (s', rest)) :
    ∃ taken ls line p, bs = taken ++ rest ∧ linesOf t s taken = ls ++ [line] ∧
      (∀ l ∈ ls, ∀ q, lineKind s.client.executingCmd s.client.pExpectedRsp l ≠ .rsp q) ∧
      lineKind s.client.executingCmd s.client.pExpectedRsp line = .rsp p ∧
      s'.client.pRspParams = some p := by
  induction bs generalizing s with
  | nil => cases hfirst
  | cons b bs ih =>
    rw [firstRsp_cons (status_of_firstRsp hfirst)] at hfirst
    by_cases hrsp : s.LineEnds (.got [b]) ∧ ∃ p, s.client.bufferedKind = .rsp p
    · -- the line is the response; its payload may follow
      obtain ⟨hends, p, hk⟩ := hrsp
      obtain ⟨hparams, hmore⟩ := rxStep_line_rsp t hends hk
      split at hfirst
      · obtain ⟨rfl, rfl⟩ := Prod.mk.inj (Option.some.inj hfirst)
        refine ⟨[b], [], s.client.rxBuffer, p, rfl, ?_, nofun, hk, hparams⟩
        rw [linesOf, if_pos hends]
        rfl
      · next hret =>
        obtain ⟨taken, rfl, hlines, hp⟩ := firstRsp_receiving (hmore hret) hfirst
        refine ⟨b :: taken, [], s.client.rxBuffer, p, rfl, ?_, nofun, hk, hp.trans hparams⟩
        rw [linesOf, if_pos hends, hlines]
        rfl
    · have hno : s.LineEnds (.got [b]) → ∀ p, s.client.bufferedKind ≠ .rsp p :=
        fun hends p hk => hrsp ⟨hends, p, hk⟩
      obtain ⟨hret, hr'⟩ := rxStep_no_rsp t hok hr hno
      rw [if_neg hret] at hfirst
      obtain ⟨hx, hp⟩ := rxStep_setup t s (.got [b])
      obtain ⟨taken, ls, line, p, rfl, hlines, hls, hk, hparams⟩ :=
        ih ((rxStep_effect t s (.got [b])).ok hok) hr' hfirst
      rw [hx, hp] at hls hk
      refine ⟨b :: taken, (if s.LineEnds (.got [b]) then [s.client.rxBuffer] else []) ++ ls, line, p, rfl,
        ?_, ?_, hk, hparams⟩
      · rw [linesOf, hlines, List.append_assoc]
      · intro l hl
        rcases List.mem_append.1 hl with hl | hl
        · split at hl
          · next hends =>
            obtain rfl := List.mem_singleton.1 hl
            exact hno hends
          · cases hl
        · exact hls l hl

/-! ## Stray lines -/

/-- The line has neither the prefix nor that of a URC, of an echo or of an error, and it is neither a
final status OK nor empty. -/
def Stray (P line : List UInt8) : Prop :=
  (line.all fun b => b = ch '\n' ∨ b = ch '\r') = false ∧ P.isPrefixOf line = false ∧ line ≠ text "OK" ∧
  (text "ERROR").isPrefixOf line = false ∧ isUrcLine line = false ∧ (text "AT+").isPrefixOf line = false

instance (P line : List UInt8) : Decidable (Stray P line) :=
  inferInstanceAs (Decidable (_ ∧ _ ∧ _ ∧ _ ∧ _ ∧ _))

/-- A response is a line with the prefix, or a stray line. -/
theorem lineKind_rsp_iff {P line p : List UInt8} (hP : P ≠ []) :
    lineKind true (some P) line = .rsp p ↔
      ((line.all fun b => b = ch '\n' ∨ b = ch '\r') = false ∧ line = P ++ p) ∨ Stray P line ∧ line = p := by
  unfold lineKind Stray
  cases hall : line.all fun b => b = ch '\n' ∨ b = ch '\r' with
  | true => simp
  | false =>
    rw [if_neg Bool.false_ne_true, if_pos rfl, cmdKind]
    cases hpre : P.isPrefixOf line with
    | true =>
      obtain ⟨cs, rfl⟩ := List.isPrefixOf_iff_prefix.1 hpre
      have hexp : expectedBy (some P) (P ++ cs) = true := by simp [expectedBy, hP]
      rw [if_pos hexp, Option.getD_some, List.drop_left]
      simp
    | false =>
      have hexp : expectedBy (some P) line = false := by simp [expectedBy, hpre]
      have hne : line ≠ P ++ p := by
        rintro rfl
        rw [List.isPrefixOf_iff_prefix.2 (List.prefix_append P p)] at hpre
        cases hpre
      rw [hexp, if_neg Bool.false_ne_true]
      by_cases hok : line = text "OK"
      · rw [if_pos hok]
        refine iff_of_false (by rintro ⟨⟩) ?_
        rintro (⟨-, h⟩ | ⟨⟨-, -, h, -⟩, -⟩)
        · exact hne h
        · exact h hok
      rw [if_neg hok]
      cases herr : (text "ERROR").isPrefixOf line with
      | true =>
        rw [if_pos rfl]
        cases errorStatus line with
        | some v => simp [hne]
        | none => rcases urcKind_cases line with hu | hu <;> simp [hu, hne]
      | false =>
        rw [if_neg Bool.false_ne_true]
        cases hurc : isUrcLine line with
        | true => simp [urcKind, hurc, hne]
        | false =>
          cases hat : (text "AT+").isPrefixOf line with
          | true => simp [urcKind, hurc, hne]
          | false => simp [hok, hne]

/-- The state in which a call awaits its response. -/
def expecting (s : AtState) (pExpectedRsp : Option (List UInt8)) (buf : BinaryResponseBuf) : AtState :=
  { s with client := s.client.expectRsp pExpectedRsp buf.pBuffer buf.pBufferLength }

theorem rxOk_expecting (hok : RxOk s.client) (pExpectedRsp : Option (List UInt8))
    (buf : BinaryResponseBuf) : RxOk (s.expecting pExpectedRsp buf).client := hok.congr rfl rfl

/-- There is a reading of the clock that is no timeout. -/
theorem exists_in_time {c : AtClient} (h : -2 ^ 31 ≤ c.cmdTimeout) : ∃ now, c.timedOut now = false := by
  refine ⟨c.cmdStartTime + 2 ^ 31, ?_⟩
  have hdiff : toInt32 (c.cmdStartTime + 2 ^ 31 - c.cmdStartTime) = -2 ^ 31 := by
    rw [Int.add_comm, Int.add_sub_cancel]
    decide
  rw [timedOut, hdiff]
  simpa using h

/-- What the call returns is the line that the first response is taken from. -/
theorem getRspParamLine_line (hok : RxOk s.client) {pExpectedRsp : Option (List UInt8)}
    {buf : BinaryResponseBuf} {rx : List UInt8} {s' : AtState} {rest p : List UInt8}
    (hfirst : firstRsp t (s.expecting pExpectedRsp buf) rx = some (s', rest))
    (hp : s'.client.pRspParams = some p) :
    ∃ taken ls line, rx = taken ++ rest ∧
      linesOf t (s.expecting pExpectedRsp buf) taken = ls ++ [line] ∧
      (∀ l ∈ ls, ∀ q, lineKind true pExpectedRsp l ≠ .rsp q) ∧
      lineKind true pExpectedRsp line = .rsp p := by
  have hok' := rxOk_expecting hok pExpectedRsp buf
  by_cases hr : (s.expecting pExpectedRsp buf).client.Receiving .rsp
  · obtain ⟨-, -, -, hnone⟩ := firstRsp_receiving hr hfirst
    rw [hp] at hnone
    cases hnone
  · obtain ⟨taken, ls, line, q, hrx, hlines, hls, hk, hq⟩ := firstRsp_lines_taken hok' hr hfirst
    obtain rfl := Option.some.inj (hp.symm.trans hq)
    have hx := executing_of_lineKind (.inr ⟨p, hk⟩)
    rw [hx] at hls hk
    exact ⟨taken, ls, line, hrx, hlines, hls, hk⟩

/-- No line that the input completes up to its first response is stray. -/
def NoStray (t : Nat) (s : AtState) (P rx : List UInt8) : Prop :=
  ∀ taken s' rest, rx = taken ++ rest → firstRsp t s rx = some (s', rest) →
    ∀ line ∈ linesOf t s taken, ¬Stray P line

end

end AtState
