import UcxClient.Client.Capture
import UcxClient.Client.RxQueue
import UcxClient.Client.Transaction

/-!
# An answer with a payload

`BinaryAnswer P n` is what a module sends for a response with a binary transfer: lines with URCs and echoes, the
response line up to its transfer, the payload, and then an answer of text. `BinaryAnswer.received`: the call that
expects the response returns its parameters with the payload in the caller's buffer, and the command goes on
with the answer behind it. Text changes no memory of a caller (`endLoop_mem`).
-/

open AtClient

namespace AtState

/-! ## Text -/

section
variable {t : Nat} {s : AtState}

/-- Bytes that start no transfer. -/
theorem rxStep_plain (t : Nat) (hbin : s.client.isBinaryRx = false) {bytes : List UInt8} (hsoh : sohChar ∉ bytes) :
    (s.rxStep t (.got bytes)).1.client.isBinaryRx = false ∧ (s.rxStep t (.got bytes)).1.mem = s.mem := by
  rw [rxStep_char hbin]
  cases charRead bytes with
  | none hone =>
    rw [readChar_none t s hone]
    exact ⟨hbin, rfl⟩
  | eol heol =>
    rw [readChar_eol t s heol]
    refine ⟨?_, rfl⟩
    rw [isBinaryRx_lineDone]
    exact (parseLine_setup rfl).2.1.trans hbin
  | soh => exact absurd (List.mem_singleton.2 rfl) hsoh
  | print hpr =>
    rw [readChar_print t s hpr]
    exact ⟨hbin, rfl⟩
  | skip h1 h2 h3 =>
    rw [readChar_skip t s h1 h2 h3]
    exact ⟨hbin, rfl⟩

theorem rxBytes_plain (t : Nat) (hbin : s.client.isBinaryRx = false) {bs : List UInt8} (hsoh : sohChar ∉ bs) :
    (rxBytes t s bs).1.client.isBinaryRx = false ∧ (rxBytes t s bs).1.mem = s.mem := by
  induction bs generalizing s with
  | nil => exact ⟨hbin, rfl⟩
  | cons b bs ih =>
    obtain ⟨hb, hbs⟩ := not_or.1 (List.mem_cons.not.1 hsoh)
    obtain ⟨hbin1, hmem1⟩ := rxStep_plain t hbin (List.mem_singleton.not.2 hb)
    obtain ⟨hbin2, hmem2⟩ := ih hbin1 hbs
    exact ⟨hbin2, hmem2.trans hmem1⟩

theorem rxBytes_bufferLen (t : Nat) (s : AtState) (bs : List UInt8) :
    (rxBytes t s bs).1.client.urcQueue.bufferLen = s.client.urcQueue.bufferLen := by
  induction bs generalizing s with
  | nil => rfl
  | cons b bs ih => exact (ih _).trans (rxStep_effect t s (.got [b])).bufferLen

theorem handleRxData_plain (t : Nat) (hbin : s.client.isBinaryRx = false) {rx : List UInt8} (hsoh : sohChar ∉ rx)
    (sched : List Arrival) :
    (s.handleRxData t rx sched).1.client.isBinaryRx = false ∧ (s.handleRxData t rx sched).1.mem = s.mem ∧
      sohChar ∉ (s.handleRxData t rx sched).2.1.rx := by
  induction sched generalizing s rx with
  | nil => exact ⟨hbin, rfl, hsoh⟩
  | cons a sched ih =>
    have hstep : (s.rxStep t (a.read rx s.wants).1).1.client.isBinaryRx = false ∧
        (s.rxStep t (a.read rx s.wants).1).1.mem = s.mem ∧ sohChar ∉ (a.read rx s.wants).2 := by
      cases a with
      | failed err => exact ⟨hbin, rfl, hsoh⟩
      | avail n =>
        obtain ⟨h1, h2⟩ := rxStep_plain t hbin fun h => hsoh (List.mem_of_mem_take h)
        exact ⟨h1, h2, fun h => hsoh (List.mem_of_mem_drop h)⟩
    rw [handleRxData]
    rcases hread : a.read rx s.wants with ⟨r, rx'⟩
    rw [hread] at hstep
    dsimp only at hstep ⊢
    rcases hx : s.rxStep t r with ⟨s1, _ | ret⟩
    · rw [hx] at hstep
      obtain ⟨hbin1, hmem1, hsoh1⟩ := hstep
      obtain ⟨hbin2, hmem2, hsoh2⟩ := ih hbin1 hsoh1
      exact ⟨hbin2, hmem2.trans hmem1, hsoh2⟩
    · rw [hx] at hstep
      exact hstep

/-- The loop of `uCxAtClientCmdGetRspParamLine` over text. -/
theorem rspLoop_plain (t : Nat) (hbin : s.client.isBinaryRx = false) {uart : Uart} (hsoh : sohChar ∉ uart.rx)
    {clock : List Int} {line : Option (List UInt8)} {s' : AtState} {h' : Host}
    (hloop : s.rspLoop t uart clock = some (line, s', h')) :
    s'.client.isBinaryRx = false ∧ s'.mem = s.mem ∧ sohChar ∉ h'.uart.rx := by
  induction clock generalizing s uart with
  | nil =>
    rw [rspLoop] at hloop
    split at hloop <;> cases hloop
    exact ⟨hbin, rfl, hsoh⟩
  | cons now clock ih =>
    rw [rspLoop] at hloop
    have hrx := handleRxData_plain t hbin hsoh uart.sched
    split at hloop
    · dsimp only at hloop
      split at hloop
      · cases hloop
        exact hrx
      split at hloop
      · cases hloop
        exact hrx
      · obtain ⟨hbin1, hmem1, hsoh1⟩ := hrx
        obtain ⟨hbin2, hmem2, hsoh2⟩ := ih hbin1 hsoh1 hloop
        exact ⟨hbin2, hmem2.trans hmem1, hsoh2⟩
    · cases hloop
      exact ⟨hbin, rfl, hsoh⟩

/-- The loop of `cmdEnd` over text. -/
theorem endLoop_mem (t : Nat) (hbin : s.client.isBinaryRx = false) {uart : Uart} (hsoh : sohChar ∉ uart.rx)
    {clock : List Int} {s' : AtState} {h' : Host} (hloop : s.endLoop t uart clock = some (s', h')) :
    s'.mem = s.mem := by
  induction clock generalizing s uart with
  | nil =>
    rw [endLoop] at hloop
    split at hloop <;> cases hloop
    rfl
  | cons now clock ih =>
    rw [endLoop] at hloop
    obtain ⟨hbin1, hmem1, hsoh1⟩ := handleRxData_plain t hbin hsoh uart.sched
    have hcheck : ∀ c : AtClient, (c.cmdEndCheck now).1.isBinaryRx = c.isBinaryRx := by
      intro c
      unfold cmdEndCheck
      split <;> rfl
    split at hloop
    · dsimp only at hloop
      split at hloop
      · cases hloop
        exact hmem1
      · exact (ih ((hcheck _).trans hbin1) hsoh1 hloop).trans hmem1
    · cases hloop
      rfl

end

end AtState

namespace Transaction

open AtState UrcQueue

section
variable {k : AtClient} {P : List UInt8} {s : AtState} {t : Nat} {queued : List Urc}

/-! ## The lines before the response -/

theorem sohChar_ne_of_printable {b : UInt8} (h : isprint b = true) : b ≠ sohChar := by
  rintro rfl
  cases h

theorem isprint_of_isEol {b : UInt8} (h : isEol b = true) : isprint b = false := by
  rcases of_decide_eq_true h with rfl | rfl <;> rfl

theorem isText_of_printable {bs : List UInt8} (h : ∀ b ∈ bs, isprint b = true) : IsText bs := by
  refine fun b hb => ⟨sohChar_ne_of_printable (h b hb), Bool.eq_false_iff.2 fun heol => ?_⟩
  have hpr := h b hb
  rw [isprint_of_isEol heol] at hpr
  cases hpr

theorem Line.Ok.soh {n : Nat} {l : Line} (h : l.Ok n) : sohChar ∉ l.bytes := by
  intro hsoh
  rcases List.mem_append.1 hsoh with hsoh | hsoh
  · exact sohChar_ne_of_printable (h.printable _ hsoh) rfl
  · exact absurd (h.eol _ hsoh) (by decide)

/-- Where all but the last line has arrived, nothing is in the line buffer. -/
theorem Position.last {pre : List UInt8} {ls : List Line} {l : Line} (hended : ∀ l' ∈ ls ++ [l], l'.eols ≠ [])
    (h : Position pre l.bytes (ls ++ [l])) : ls = [] ∧ pre = [] := by
  generalize hrx : l.bytes = rx at h
  generalize htodo : ls ++ [l] = todo at h hended
  cases h with
  | @between eols _ heol =>
    subst htodo
    refine ⟨?_, rfl⟩
    cases ls with
    | nil => rfl
    | cons l' ls =>
      have hne := List.length_pos_iff.2 (hended l' (by simp))
      have hlen := congrArg List.length hrx
      simp only [List.cons_append, List.flatMap_cons, List.flatMap_append, List.flatMap_nil, List.length_append,
        List.append_nil, Line.bytes] at hlen
      omega
  | @inside _ post l' ls' hl =>
    cases ls with
    | nil =>
      cases htodo
      have hpost := congrArg List.length hrx
      have hchars := congrArg List.length hl
      simp only [List.flatMap_nil, List.append_nil, Line.bytes, List.length_append] at hpost hchars
      exact ⟨rfl, List.length_eq_zero_iff.1 (by omega)⟩
    | cons l'' ls =>
      rw [List.cons_append] at htodo
      obtain ⟨rfl, rfl⟩ := List.cons.inj htodo
      have hne := List.length_pos_iff.2 (hended l'' (by simp))
      have hlen := congrArg List.length hrx
      simp only [List.flatMap_cons, List.flatMap_append, List.flatMap_nil, List.length_append,
        List.append_nil, Line.bytes] at hlen
      omega

/-- Where no line is left, only ends of lines are. -/
theorem Position.rest {pre rx : List UInt8} (h : Position pre rx []) : ∀ b ∈ rx, isEol b = true := by
  cases h with
  | between heol =>
    intro b hb
    exact heol b (by simpa using hb)

/-- Lines that are no response and no status, up to the response line `l`. By induction on their bytes. -/
theorem Turn.lines (hk : Started k P) (t : Nat) {ls : List Line} {l : Line} {p : List UInt8} (hchars : l.chars ≠ [])
    (hl : l.kind P = .rsp p) (hls : ∀ l' ∈ ls, l'.kind P = .urc ∨ l'.kind P = .other) {bs : List UInt8}
    (h : Turn k P s (bs ++ l.bytes) (ls ++ [l]) queued) :
    (rxBytes t s bs).2 = [] ∧ (∀ pre, pre <+: bs → (rxBytes t s pre).1.client.status = noStatus) ∧
      Turn k P (rxBytes t s bs).1 l.bytes [l] (queued ++ urcs P ls) ∧ (rxBytes t s bs).1.client.rxBuffer = [] := by
  have hnow := h.client.status hk
  induction bs generalizing s ls queued with
  | nil =>
    obtain ⟨rfl, hpre⟩ := h.position.last fun l' hl' => (h.ok l' hl').ended
    refine ⟨rfl, fun pre hpre => ?_, ?_, hpre⟩
    · rw [List.prefix_nil.1 hpre]
      exact hnow
    · rw [urcs, List.filterMap_nil, List.append_nil]
      exact h
  | cons b bs ih =>
    have hstep : ∃ ls' queued', (s.rxStep t (.got [b])).2 = none ∧
        Turn k P (s.rxStep t (.got [b])).1 (bs ++ l.bytes) (ls' ++ [l]) queued' ∧
        (∀ l' ∈ ls', l'.kind P = .urc ∨ l'.kind P = .other) ∧ queued' ++ urcs P ls' = queued ++ urcs P ls := by
      rcases Turn.byte hk t h (by simp) with ⟨hret, hturn⟩ | ⟨l', ls', heq, hdone⟩
      · exact ⟨ls, queued, hret, hturn, hls, rfl⟩
      cases ls with
      | nil =>
        -- the response line is not done before its characters have come
        obtain ⟨rfl, rfl⟩ := List.cons.inj heq
        rw [hl] at hdone
        obtain ⟨c, cs, hc⟩ := List.exists_cons_of_ne_nil hchars
        have heol := hdone.2.2.position.rest c (by simp [Line.bytes, hc])
        have hpr := (h.ok l (by simp)).printable c (by simp [hc])
        rw [isprint_of_isEol heol] at hpr
        cases hpr
      | cons l'' ls =>
        obtain ⟨rfl, rfl⟩ := List.cons.inj heq
        have hls' := fun l hl => hls l (List.mem_cons_of_mem _ hl)
        rcases hls l'' List.mem_cons_self with hkind | hkind
        · rw [hkind] at hdone
          refine ⟨ls, _, hdone.1, hdone.2, hls', ?_⟩
          rw [urcs_cons_urc hkind, List.append_assoc]
          rfl
        · rw [hkind] at hdone
          refine ⟨ls, _, hdone.1, hdone.2, hls', ?_⟩
          rw [urcs_cons_of_ne (by simp [hkind])]
    obtain ⟨ls', queued', hret, hturn, hls', hqueued⟩ := hstep
    have hbyte : rxByte t s b = ((s.rxStep t (.got [b])).1, []) := by
      simp only [rxByte, hret, rxEvent]
    obtain ⟨hquiet, hstatus, hturn', hbuf⟩ := ih hls' hturn (hturn.client.status hk)
    have hcons : ∀ bs, rxBytes t s (b :: bs) = rxBytes t (s.rxStep t (.got [b])).1 bs := by
      intro bs
      rw [rxBytes, Machine.feed_cons, hbyte]
      rfl
    refine ⟨?_, fun pre hpre => ?_, ?_, ?_⟩
    · rw [hcons]
      exact hquiet
    · cases pre with
      | nil => exact hnow
      | cons b' pre =>
        obtain ⟨rfl, hpre'⟩ := List.cons_prefix_cons.1 hpre
        rw [hcons]
        exact hstatus pre hpre'
    · rw [hcons, ← hqueued]
      exact hturn'
    · rw [hcons]
      exact hbuf

/-! ## The transfer -/

theorem takePayload_urcQueue (hdest : ∀ off, s.client.binaryRx.pBuffer ≠ .urcBuffer off) (bytes : List UInt8) :
    (s.takePayload bytes).client.urcQueue = s.client.urcQueue := by
  simp only [takePayload, storePayload]
  split
  · split
    · rfl
    · rfl
    · next off heq => exact absurd heq (hdest off)
  · rfl

/-- Of the client a transfer to a caller changes its record, what is in the line buffer and the response. -/
theorem transfer_client (t : Nat) (s : AtState) (p : List UInt8) (high low : UInt8) (payload : List UInt8) :
    ∃ binaryRx, (((s.startedRsp p high low).takeAll payload).binaryRxDone t).1.client =
      { s.client with rxBuffer := [], pRspParams := some p, isBinaryRx := false, binaryRx } := by
  have hdest : ∀ off, (s.startedRsp p high low).client.binaryRx.pBuffer ≠ .urcBuffer off := by
    intro off
    simp only [startedRsp]
    cases s.client.rspBinaryBuf.pBuffer <;> exact BinaryDest.noConfusion
  have hqueue : ((s.startedRsp p high low).takeAll payload).client.urcQueue = s.client.urcQueue := by
    obtain ⟨-, -, -, -, hbuffer, -⟩ := (s.startedRsp p high low).takePayload_client
      (payload.take (s.startedRsp p high low).remainingBuf)
    rw [takeAll, takePayload_urcQueue fun off => hbuffer ▸ hdest off]
    exact takePayload_urcQueue hdest _
  have hstate : ((s.startedRsp p high low).takeAll payload).client.binaryRx.state = .rsp :=
    takeAll_state _ payload
  obtain ⟨binaryRx, urcQueue, hclient⟩ := (s.startedRsp p high low).takeAll_client_eq payload
  rw [hclient] at hqueue hstate
  obtain rfl : urcQueue = s.client.urcQueue := hqueue
  replace hstate : binaryRx.state = .rsp := hstate
  refine ⟨{ binaryRx with state := .flush, rxHeaderCount := 0 }, ?_⟩
  simp only [binaryRxDone, hclient, hstate]
  rfl

end

/-! ## What a module answers -/

/-- What a module sends to a command that expects `P`: URCs and echoes, a response with a payload, and an answer
of text. The lines fit a line buffer of `n` bytes. -/
structure BinaryAnswer (P : List UInt8) (n : Nat) where
  before : List (Item × List UInt8)
  params : List UInt8
  payload : List UInt8
  after : Answer P n
  before_ok : ∀ x ∈ before, (∀ p, x.1 ≠ .rsp p) ∧ x.1.Ok P ∧ Line.Ok n ⟨x.1.chars P, x.2⟩
  params_ok : (∀ b ∈ P ++ params, isprint b = true) ∧ (P ++ params).length < n
  payload_short : payload.length < 65536

namespace BinaryAnswer

variable {P : List UInt8} {n : Nat} (a : BinaryAnswer P n)

def lines : List Line := a.before.map fun x => ⟨x.1.chars P, x.2⟩

/-- The bytes on the UART. -/
def bytes : List UInt8 :=
  a.lines.flatMap Line.bytes ++ (P ++ a.params ++ (binaryFrame a.payload ++ a.after.bytes))

/-- The URCs before the response, and behind it. -/
def urcs : List Urc := Transaction.urcs P a.lines ++ a.after.urcs

/-- The response line, as far as it has characters. -/
def line : Line := ⟨P ++ a.params, [ch '\r']⟩

theorem line_ok : a.line.Ok n :=
  ⟨a.params_ok.1, a.params_ok.2, List.cons_ne_nil _ _, List.all_eq_true.1 rfl⟩

section
variable (hP : isUrcLine P = true)
include hP

theorem lines_kind : ∀ l ∈ a.lines, l.kind P = .urc ∨ l.kind P = .other := by
  intro l hl
  obtain ⟨x, hx, rfl⟩ := List.mem_map.1 hl
  obtain ⟨hrsp, hok, -⟩ := a.before_ok x hx
  rw [kind_item hP hok x.2]
  cases hitem : x.1 with
  | rsp p => exact absurd hitem (hrsp p)
  | urc => exact .inl rfl
  | echo => exact .inr rfl

variable {s : AtState} (hr : Ready s.client) (hsmall : s.client.urcQueue.bufferLen < 2 ^ 31)
  (hn : s.client.rxBufferLen = n) (hroom : Room a.urcs s.client.urcQueue) (t : Nat) (now : Int)
include hr hsmall hn hroom

/-- The receiver where the response line starts. -/
theorem lines_received (buf : BinaryResponseBuf) :
    let s0 := (s.cmdBeginF t now).expecting (some P) buf
    let s1 := (rxBytes t s0 (a.lines.flatMap Line.bytes)).1
    (∀ rest, firstRsp t s0 (a.lines.flatMap Line.bytes ++ rest) = firstRsp t s1 rest) ∧ RxOk s1.client ∧
      s1.mem = s.mem ∧ s1.client.rspBinaryBuf = buf ∧ s1.client.rxBuffer = [] ∧
      s1.client.urcQueue.bufferLen = s.client.urcQueue.bufferLen ∧
      Turn { (s.cmdBeginF t now).client with pExpectedRsp := some P } P s1 a.line.bytes [a.line]
        (Transaction.urcs P a.lines) := by
  intro s0 s1
  have hk : Started { (s.cmdBeginF t now).client with pExpectedRsp := some P } P :=
    ⟨rfl, hr.idle.isBinaryRx, rfl, rfl⟩
  have hkind : a.line.kind P = .rsp a.params := kind_rsp hP a.params _
  have hok : ∀ l ∈ a.lines, l.Ok n := by
    intro l hl
    obtain ⟨x, hx, rfl⟩ := List.mem_map.1 hl
    exact (a.before_ok x hx).2.2
  have hq : Holds s.client.urcQueue [] := ⟨⟨s.client.urcQueue.pBuffer, rfl⟩, hr.length, hr.empty, hsmall, hr.enqueue,
    hr.queueFree, hr.dequeueFree⟩
  have hturn : Turn { (s.cmdBeginF t now).client with pExpectedRsp := some P } P s0
      (a.lines.flatMap Line.bytes ++ a.line.bytes) (a.lines ++ [a.line]) [] := by
    refine ⟨⟨s.client.rxBuffer, none, buf, s.client.urcQueue, rfl⟩, ?_, hq, ?_, ?_⟩
    · have hpos : Position [] ([] ++ (a.lines ++ [a.line]).flatMap Line.bytes) (a.lines ++ [a.line]) :=
        .between nofun
      rw [List.flatMap_append, List.flatMap_singleton] at hpos
      exact hr.idle.rxBuffer ▸ hpos
    · have hlast : Transaction.urcs P (a.lines ++ [a.line]) = Transaction.urcs P a.lines := by
        simp [Transaction.urcs, hkind]
      rw [List.nil_append, hlast]
      have hle := hroom
      rw [Room, urcs, encodeAll_append, List.length_append] at hle
      exact Nat.le_trans (Nat.le_add_right _ _) hle
    · intro l hl
      rcases List.mem_append.1 hl with hl | hl
      · exact hn ▸ hok l hl
      · rw [List.mem_singleton.1 hl]
        exact hn ▸ a.line_ok
  have hchars : a.line.chars ≠ [] := by
    obtain ⟨c, cs, hc, -⟩ := exists_of_isUrcLine hP
    simp [line, hc]
  obtain ⟨hquiet, hstatus, hturn', hbuf⟩ := Turn.lines hk t hchars hkind (a.lines_kind hP) hturn
  have hok0 : RxOk s0.client := rxOk_of_not_binary hr.idle.isBinaryRx hr.idle.rxHeaderCount
  obtain ⟨hsetup, hok1⟩ := rxBytes_setup_ok (t := t) hok0 (a.lines.flatMap Line.bytes)
  have hsoh : sohChar ∉ a.lines.flatMap Line.bytes := by
    intro h
    obtain ⟨l, hl, hmem⟩ := List.mem_flatMap.1 h
    exact (hok l hl).soh hmem
  exact ⟨firstRsp_append hquiet hstatus, hok1, (rxBytes_plain (s := s0) t hr.idle.isBinaryRx hsoh).2,
    congrArg Setup.rspBinaryBuf hsetup, hbuf, rxBytes_bufferLen t s0 _, hturn'⟩

/-- What the input comes to, up to the end of the payload. -/
theorem firstRsp_bytes {buf : BinaryResponseBuf} (hbuf : buf.pBuffer = none → capacity s.mem buf = 0) :
    ∃ s1, firstRsp t ((s.cmdBeginF t now).expecting (some P) buf) a.bytes = some (s1, a.after.bytes) ∧
      s1.client.pRspParams = some a.params ∧ Captured s.mem s1.mem buf a.payload ∧
      s1.client.rxBuffer = [] ∧ Holds s1.client.urcQueue (Transaction.urcs P a.lines) ∧
      Room a.urcs s1.client.urcQueue ∧
      ∃ binaryRx, Follows { (s.cmdBeginF t now).client with pExpectedRsp := some P, binaryRx } s1.client := by
  obtain ⟨hlines, hok1, hmem1, hrsp1, hbuf1, hlen1, hturn⟩ := a.lines_received hP hr hsmall hn hroom t now buf
  generalize (rxBytes t ((s.cmdBeginF t now).expecting (some P) buf) (a.lines.flatMap Line.bytes)).1 = s1 at *
  have hk : Started { (s.cmdBeginF t now).client with pExpectedRsp := some P } P :=
    ⟨rfl, hr.idle.isBinaryRx, rfl, rfl⟩
  have hst := hturn.client.status hk
  have hbin := hturn.client.isBinaryRx hk
  have hn1 : s1.client.rxBufferLen = n := hturn.client.rxBufferLen.trans hn
  obtain ⟨hprint, hshort⟩ := a.params_ok
  have hfilter : leftOver s1.client.rxBufferLen ((P ++ a.params).filter isprint) = P ++ a.params := by
    rw [List.filter_eq_self.2 hprint, hn1, leftOver_of_lt hshort]
  have hkind : lineKind s1.client.executingCmd s1.client.pExpectedRsp (P ++ a.params) = .rsp a.params := by
    rw [hturn.client.executingCmd hk, hturn.client.pExpectedRsp hk]
    exact kind_rsp hP a.params []
  have hleaves : LeavesRsp t s1 (P ++ a.params) a.params :=
    leavesRsp_text hst hbin hbuf1 (by omega) (isText_of_printable hprint) (by rw [hfilter]; exact hkind)
  have hlen : a.payload.length =
      announcedLength (UInt8.ofNat (a.payload.length / 256)) (UInt8.ofNat a.payload.length) := by
    rw [announcedLength_ofNat, Nat.mod_eq_of_lt a.payload_short]
  obtain ⟨s2, hfirst, hparams, -, hbuf2, hcap⟩ :=
    firstRsp_leavesRsp hok1 (by rw [hmem1, hrsp1]; exact hbuf) hleaves hlen a.after.bytes
  have hrx : firstRsp t ((s.cmdBeginF t now).expecting (some P) buf) a.bytes = some (s2, a.after.bytes) :=
    (hlines _).trans hfirst
  have hs2 : ∃ binaryRx, s2.client = { (rxBytes t s1 (P ++ a.params)).1.client with
      rxBuffer := [], pRspParams := some a.params, isBinaryRx := false, binaryRx } := by
    have htransfer := firstRsp_transfer (t := t) (rxBytes_setup_ok (t := t) hok1 (P ++ a.params)).2
      (hleaves.status _ (List.prefix_refl _)) hleaves.char hleaves.line hlen a.after.bytes
    rw [← firstRsp_append hleaves.quiet hleaves.status] at htransfer
    obtain ⟨rfl, -⟩ := Prod.mk.inj (Option.some.inj (hfirst.symm.trans htransfer))
    exact transfer_client t _ _ _ _ _
  obtain ⟨binaryRx, hs2⟩ := hs2
  rw [rxBytes_text t hbin hbuf1 (by omega) (isText_of_printable hprint)] at hs2
  have hqueue : s2.client.urcQueue = s1.client.urcQueue := by
    rw [hs2]
    rfl
  rw [hmem1, hrsp1] at hcap
  refine ⟨s2, hrx, hparams, hcap, hbuf2, ?_, ?_, binaryRx, ?_⟩
  · rw [hqueue]
    exact hturn.queue
  · rw [Room, hqueue, hlen1]
    exact hroom
  · obtain ⟨rxBuffer, pRspParams, rspBinaryBuf, urcQueue, hc⟩ := hturn.client
    refine ⟨[], some a.params, rspBinaryBuf, urcQueue, ?_⟩
    rw [hs2, withLine, hc]
    simp only [AtState.cmdBeginF, beginCmd, hr.idle.isBinaryRx]

/-- **A response with a payload.** The call returns the parameters of the response with the first bytes of the
payload in the caller's buffer, and the command goes on with the answer behind the payload. -/
theorem received {h : Host} (hrx : Arrives (s.cmdBeginF t now).client a.bytes h) {buf : BinaryResponseBuf}
    (hbuf : buf.pBuffer = none → capacity s.mem buf = 0) :
    ∃ k s1 h1, Started k P ∧ k.cmdMutex = s.client.cmdMutex.lock t ∧ k.urcCallback = true ∧
      (s.cmdBeginF t now).uCxAtClientCmdGetRspParamLine t (some P) buf h = some (some a.params, s1, h1) ∧
      Captured s.mem s1.mem buf a.payload ∧ s1.client.isBinaryRx = false ∧ h1.uart.rx = a.after.bytes ∧
      Stage k P a.after.final.status a.urcs a.after.params s1 h1 := by
  obtain ⟨s1, hfirst, hparams, hcap, hbuf1, hq, hroom1, binaryRx, hc⟩ :=
    a.firstRsp_bytes hP hr hsmall hn hroom t now hbuf
  have hok : RxOk ((s.cmdBeginF t now).expecting (some P) buf).client :=
    rxOk_of_not_binary hr.idle.isBinaryRx hr.idle.rxHeaderCount
  obtain ⟨hbytes, hdelivers, hclock, htime⟩ := hrx
  rw [← hbytes] at hfirst hdelivers
  obtain ⟨h1, hloop, hrest, hdelivers1, hclock1, hsub⟩ := rspLoop_delivers hok hdelivers hclock htime hfirst
  have hk : Started { (s.cmdBeginF t now).client with pExpectedRsp := some P, binaryRx } P :=
    ⟨rfl, hr.idle.isBinaryRx, rfl, rfl⟩
  refine ⟨_, s1, h1, hk, rfl, hr.callback, ?_, hcap, hc.isBinaryRx hk, hrest, ?_⟩
  · rw [hparams] at hloop
    exact hloop
  · exact a.after.stage hP hc hn hbuf1 hq hroom1 ⟨hrest, hdelivers1, hclock1, fun n hn => htime n (hsub n hn)⟩

end

end BinaryAnswer

end Transaction
