import UcxClient.Client.Lines
import UcxClient.Client.FinalStatus

/-!
# The wait for a response, byte by byte

`firstRsp` is what the loop of `uCxAtClientCmdGetRspParamLine` finds in the input when it is taken byte by
byte: the first response before a status. Whatever the reads bring, a line that the loop returns is that
one, and what it leaves of the input is what stands behind it (`rspLoop_firstRsp`). Without failed reads
and timeouts the loop returns nothing else (`rspLoop_good`), and if the reads deliver the input it returns
(`rspLoop_of_firstRsp`).
-/

open AtClient

namespace AtState

/-- The state with the first response in the input, and the input behind it. There is none once a status
has been recorded. -/
def firstRsp (t : Nat) (s : AtState) : List UInt8 → Option (AtState × List UInt8)
  | [] => none
  | b :: bs =>
    if s.client.status ≠ noStatus then none
    else if (s.rxStep t (.got [b])).2 = some .gotRsp then some ((s.rxStep t (.got [b])).1, bs)
    else firstRsp t (s.rxStep t (.got [b])).1 bs

section
variable {t : Nat} {s : AtState}

theorem firstRsp_of_status (h : s.client.status ≠ noStatus) (bs : List UInt8) : firstRsp t s bs = none := by
  cases bs with
  | nil => rfl
  | cons b bs => rw [firstRsp, if_pos h]

theorem status_of_firstRsp {bs : List UInt8} {x : AtState × List UInt8} (h : firstRsp t s bs = some x) :
    s.client.status = noStatus := by
  by_cases hst : s.client.status = noStatus
  · exact hst
  · rw [firstRsp_of_status hst] at h
    cases h

theorem firstRsp_cons (h : s.client.status = noStatus) (b : UInt8) (bs : List UInt8) :
    firstRsp t s (b :: bs) =
      if (s.rxStep t (.got [b])).2 = some .gotRsp then some ((s.rxStep t (.got [b])).1, bs)
      else firstRsp t (s.rxStep t (.got [b])).1 bs := by
  rw [firstRsp, if_neg (by simpa using h)]

/-- A response takes at least one byte. -/
theorem length_of_firstRsp {bs : List UInt8} {s' : AtState} {rest : List UInt8}
    (h : firstRsp t s bs = some (s', rest)) : rest.length < bs.length := by
  induction bs generalizing s with
  | nil => cases h
  | cons b bs ih =>
    rw [firstRsp_cons (status_of_firstRsp h)] at h
    rw [List.length_cons]
    split at h
    · obtain ⟨-, rfl⟩ := Prod.mk.inj (Option.some.inj h)
      exact Nat.lt_succ_self _
    · exact Nat.lt_succ_of_lt (ih h)

/-- Bytes that bring neither a response nor a status are passed over. -/
theorem firstRsp_append {bs : List UInt8} (hev : (rxBytes t s bs).2 = [])
    (hst : ∀ pre, pre <+: bs → (rxBytes t s pre).1.client.status = noStatus) (rest : List UInt8) :
    firstRsp t s (bs ++ rest) = firstRsp t (rxBytes t s bs).1 rest := by
  induction bs generalizing s with
  | nil => rfl
  | cons b bs ih =>
    obtain ⟨hev1, hev2⟩ := List.append_eq_nil_iff.1 hev
    have hnow : s.client.status = noStatus := hst [] List.nil_prefix
    have hret : (s.rxStep t (.got [b])).2 ≠ some .gotRsp := by
      intro hret
      simp only [rxByte, hret] at hev1
      cases hev1
    rw [List.cons_append, firstRsp_cons hnow, if_neg hret]
    refine ih hev2 fun pre hpre => ?_
    exact hst (b :: pre) (List.cons_prefix_cons.2 ⟨rfl, hpre⟩)

/-! ## One read -/

/-- The first of several bytes of a read completes no line. -/
theorem rxStep_cons_status {b : UInt8} {bs : List UInt8} (hne : bs ≠ [])
    (hle : (b :: bs).length ≤ s.wants) : (s.rxStep t (.got [b])).1.client.status = s.client.status := by
  have hlen : 0 < bs.length := List.length_pos_iff.2 hne
  rw [List.length_cons] at hle
  have hbin : s.client.isBinaryRx = true := by
    cases hchar : s.client.isBinaryRx with
    | true => rfl
    | false =>
      have hw : s.wants = 1 := by simp [wants, hchar]
      omega
  by_cases hc : s.client.binaryRx.rxHeaderCount < 2
  · have hw : s.wants = 2 - s.client.binaryRx.rxHeaderCount := by simp [wants, hbin, hc]
    have hone : (s.storeHeader [b]).client.binaryRx.rxHeaderCount < 2 := by
      simp only [storeHeader, List.length_singleton]
      omega
    rw [rxStep_header hbin hc, readHeader, if_pos hone]
    rfl
  · rw [rxStep_payload hbin (Nat.not_lt.1 hc), readPayload, if_neg (by simp), binaryRxNext_status]
    exact (s.takePayload_client [b]).1

/-- **A read** of at most the bytes that were asked for. -/
theorem firstRsp_read (h : s.client.status = noStatus) {bytes : List UInt8} (hle : bytes.length ≤ s.wants)
    (rest : List UInt8) : firstRsp t s (bytes ++ rest) =
      if (s.rxStep t (.got bytes)).2 = some .gotRsp then some ((s.rxStep t (.got bytes)).1, rest)
      else firstRsp t (s.rxStep t (.got bytes)).1 rest := by
  induction bytes generalizing s with
  | nil =>
    rw [rxStep_nil]
    rfl
  | cons b bs ih =>
    rw [List.cons_append, firstRsp_cons h]
    by_cases hne : bs = []
    · subst hne
      rfl
    · obtain ⟨hno, heq, hle'⟩ := rxStep_cons (t := t) hne hle
      have hret : (s.rxStep t (.got [b])).2 ≠ some .gotRsp := by
        intro hret
        have := hno s
        rw [hret] at this
        cases this
      rw [if_neg hret, ih ((rxStep_cons_status hne hle).trans h) hle', heq]

/-- A read for which `n` bytes are there. -/
theorem firstRsp_avail (h : s.client.status = noStatus) (rx : List UInt8) (n : Nat) : firstRsp t s rx =
    if (s.rxStep t (.got (rx.take (min n s.wants)))).2 = some .gotRsp then
      some ((s.rxStep t (.got (rx.take (min n s.wants)))).1, rx.drop (min n s.wants))
    else firstRsp t (s.rxStep t (.got (rx.take (min n s.wants)))).1 (rx.drop (min n s.wants)) := by
  have hle : (rx.take (min n s.wants)).length ≤ s.wants := by
    rw [List.length_take]
    omega
  rw [← firstRsp_read h hle, List.take_append_drop]

/-! ## A call of `handleRxData` -/

/-- A transfer that is discarded brings no response. -/
theorem rxStep_flush (hr : s.client.Receiving .flush) (hst : s.client.status ≠ noStatus) (r : ReadStatus) :
    (s.rxStep t r).2 ≠ some .gotRsp ∧ (s.rxStep t r).1.client.status ≠ noStatus := by
  have heff := rxStep_effect t s r
  generalize (s.rxStep t r).1 = s' at heff ⊢
  generalize (s.rxStep t r).2 = ret at heff ⊢
  cases heff with
  | failed err => exact ⟨nofun, (by decide : errorIo ≠ noStatus)⟩
  | quiet hbin => rw [hr.1] at hbin; cases hbin
  | line hbin => rw [hr.1] at hbin; cases hbin
  | header _ hlt => have := hr.2.1; omega
  | start _ hlt => have := hr.2.1; omega
  | stalled => exact ⟨nofun, (s.takePayload_client []).1 ▸ hst⟩
  | @payload bytes =>
    obtain ⟨h0, -, -, h3, -⟩ := s.takePayload_client bytes
    refine ⟨?_, by rw [binaryRxNext_status, h0]; exact hst⟩
    rcases (s.takePayload bytes).binaryRxNext_cases t with ⟨-, heq⟩ | ⟨-, heq⟩
    · rw [heq]
      nofun
    · rw [heq]
      simp [binaryRxDone, h3, hr.2.2]

theorem handleRxData_flush (hr : s.client.Receiving .flush) (hst : s.client.status ≠ noStatus)
    (rx : List UInt8) (sched : List Arrival) :
    (s.handleRxData t rx sched).2.2 ≠ .gotRsp ∧
      (s.handleRxData t rx sched).1.client.status ≠ noStatus := by
  induction sched generalizing s rx with
  | nil => exact ⟨nofun, hst⟩
  | cons a sched ih =>
    rw [handleRxData]
    obtain ⟨hret, hst'⟩ := rxStep_flush (t := t) hr hst (a.read rx s.wants).1
    have heff := rxStep_effect t s (a.read rx s.wants).1
    rcases hx : s.rxStep t (a.read rx s.wants).1 with ⟨s', _ | code⟩
    · rw [hx] at hst' heff
      simp only [hx]
      exact ih (heff.more.2 _ hr) hst' _
    · rw [hx] at hret hst'
      simp only [hx]
      exact ⟨fun h => hret (congrArg some h), hst'⟩

/-- **A call of `handleRxData`** returns the first response of the input, or leaves it to the calls that
follow. -/
theorem handleRxData_firstRsp (hst : s.client.status = noStatus) (rx : List UInt8) (sched : List Arrival) :
    ((s.handleRxData t rx sched).2.2 = .gotRsp →
      firstRsp t s rx = some ((s.handleRxData t rx sched).1, (s.handleRxData t rx sched).2.1.rx)) ∧
    ((s.handleRxData t rx sched).2.2 ≠ .gotRsp →
      (s.handleRxData t rx sched).1.client.status = noStatus →
      firstRsp t s rx =
        firstRsp t (s.handleRxData t rx sched).1 (s.handleRxData t rx sched).2.1.rx) := by
  induction sched generalizing s rx with
  | nil => exact ⟨by rintro ⟨⟩, fun _ _ => rfl⟩
  | cons a sched ih =>
    cases a with
    | failed err => exact ⟨by rintro ⟨⟩, fun _ h => absurd h (by decide : errorIo ≠ noStatus)⟩
    | avail n =>
      have hread := firstRsp_avail (t := t) hst rx n
      have heff := rxStep_effect t s (.got (rx.take (min n s.wants)))
      simp only [handleRxData, Arrival.read]
      rcases hx : s.rxStep t (.got (rx.take (min n s.wants))) with ⟨s1, _ | code⟩
      · rw [hx] at hread heff
        rw [hread, if_neg (by rintro ⟨⟩)]
        dsimp only at heff ⊢
        rcases heff.more.1 with hsame | hflush
        · exact ih (hsame.trans hst) _
        · by_cases hst1 : s1.client.status = noStatus
          · exact ih hst1 _
          · -- a status was recorded by the line of a transfer
            obtain ⟨h1, h2⟩ := handleRxData_flush (t := t) hflush hst1 (rx.drop (min n s.wants)) sched
            exact ⟨fun h => absurd h h1, fun _ h => absurd h h2⟩
      · rw [hx] at hread
        rw [hread]
        refine ⟨?_, ?_⟩
        · rintro rfl
          rfl
        · intro hcode _
          rw [if_neg (by simpa using hcode)]

/-! ## The loop -/

theorem rspLoop_none_of_status (h : s.client.status ≠ noStatus) (uart : Uart) (clock : List Int) :
    (s.rspLoop t uart clock).map (·.1) = some none := by
  cases clock <;> rw [rspLoop, if_neg h] <;> rfl

/-- **A line that the loop returns** is the first response of the input. -/
theorem rspLoop_firstRsp {uart : Uart} {clock : List Int} {p : List UInt8} {s' : AtState} {h' : Host}
    (h : s.rspLoop t uart clock = some (some p, s', h')) :
    firstRsp t s uart.rx = some (s', h'.uart.rx) ∧ s'.client.pRspParams = some p := by
  induction clock generalizing s uart with
  | nil =>
    rw [rspLoop] at h
    split at h <;> cases h
  | cons now clock ih =>
    by_cases hst : s.client.status = noStatus
    · obtain ⟨hgot, hnot⟩ := handleRxData_firstRsp (t := t) hst uart.rx uart.sched
      rw [rspLoop, if_pos hst] at h
      rcases hx : s.handleRxData t uart.rx uart.sched with ⟨s1, uart1, ret⟩
      simp only [hx] at h hgot hnot
      by_cases hret : ret = .gotRsp
      · rw [if_pos hret, Option.some.injEq, Prod.mk.injEq, Prod.mk.injEq] at h
        obtain ⟨hp, rfl, rfl⟩ := h
        exact ⟨hgot hret, hp⟩
      · rw [if_neg hret] at h
        split at h
        · cases h
        · by_cases hst1 : s1.client.status = noStatus
          · rw [hnot hret hst1]
            exact ih h
          · have hnone := rspLoop_none_of_status (t := t) hst1 uart1 clock
            rw [h] at hnone
            cases hnone
    · have hnone := rspLoop_none_of_status (t := t) hst uart (now :: clock)
      rw [h] at hnone
      cases hnone

/-! ## Delivery -/

/-- A read asks for at least one byte. -/
theorem wants_pos (hok : RxOk s.client) : 0 < s.wants := by
  unfold wants
  dsimp only
  split
  · exact Nat.one_pos
  · next hbin =>
    split
    · omega
    · next hc =>
      have hpend := hok.pending (by simpa using hbin) (Nat.not_lt.1 hc)
      split <;> omega

theorem delivers_read {rx : List UInt8} {n m : Nat} {sched : List Arrival} (hrx : rx ≠ [])
    (hd : Transaction.Delivers rx (.avail n :: sched)) (hm : 0 < m) :
    Transaction.Delivers (rx.drop (min n m)) sched := by
  have hpos : 0 < rx.length := List.length_pos_iff.2 hrx
  refine ⟨fun a ha => hd.good a (List.mem_cons_of_mem _ ha), ?_⟩
  have henough := hd.enough
  rw [List.length_drop]
  cases n with
  | zero =>
    rw [List.countP_cons_of_neg (by simp)] at henough
    omega
  | succ n =>
    rw [List.countP_cons_of_pos (by simp)] at henough
    omega

/-- As long as no read fails, a call of `handleRxData` returns the first response or leaves it to the next
calls. -/
theorem handleRxData_good {rx : List UInt8} {sched : List Arrival}
    (hgood : ∀ a ∈ sched, ∃ n, a = .avail n) {s' : AtState} {rest : List UInt8}
    (hfirst : firstRsp t s rx = some (s', rest)) :
    ((s.handleRxData t rx sched).2.2 = .gotRsp ∧ (s.handleRxData t rx sched).1 = s' ∧
      (s.handleRxData t rx sched).2.1.rx = rest) ∨
    ((s.handleRxData t rx sched).2.2 ≠ .gotRsp ∧
      (∀ a ∈ (s.handleRxData t rx sched).2.1.sched, ∃ n, a = .avail n) ∧
      firstRsp t (s.handleRxData t rx sched).1 (s.handleRxData t rx sched).2.1.rx = some (s', rest)) := by
  induction sched generalizing s rx with
  | nil => exact .inr ⟨by rintro ⟨⟩, hgood, hfirst⟩
  | cons a sched ih =>
    obtain ⟨n, rfl⟩ := hgood a List.mem_cons_self
    have hgood' : ∀ a ∈ sched, ∃ n, a = .avail n := fun a ha => hgood a (List.mem_cons_of_mem _ ha)
    have hread := firstRsp_avail (t := t) (status_of_firstRsp hfirst) rx n
    rw [hfirst] at hread
    simp only [handleRxData, Arrival.read]
    rcases hx : s.rxStep t (.got (rx.take (min n s.wants))) with ⟨s1, _ | code⟩
    · rw [hx, if_neg (by rintro ⟨⟩)] at hread
      exact ih hgood' hread.symm
    · rw [hx] at hread
      by_cases hcode : code = .gotRsp
      · subst hcode
        rw [if_pos rfl, Option.some.injEq, Prod.mk.injEq] at hread
        exact .inl ⟨rfl, hread.1.symm, hread.2.symm⟩
      · rw [if_neg (by simpa using hcode)] at hread
        exact .inr ⟨hcode, hgood', hread.symm⟩

/-- A call of `handleRxData` uses up some of the reads that deliver the input. -/
theorem handleRxData_delivers (hok : RxOk s.client) {rx : List UInt8} {sched : List Arrival}
    (hd : Transaction.Delivers rx sched) {x : AtState × List UInt8} (hfirst : firstRsp t s rx = some x) :
    (s.handleRxData t rx sched).2.1.sched.length < sched.length ∧
    RxOk (s.handleRxData t rx sched).1.client ∧
    Transaction.Delivers (s.handleRxData t rx sched).2.1.rx (s.handleRxData t rx sched).2.1.sched := by
  have hrx : rx ≠ [] := by
    rintro rfl
    cases hfirst
  induction sched generalizing s rx with
  | nil =>
    have henough := hd.enough
    rw [List.countP_nil, Nat.le_zero, List.length_eq_zero_iff] at henough
    exact absurd henough hrx
  | cons a sched ih =>
    obtain ⟨n, rfl⟩ := hd.good a List.mem_cons_self
    have hread := firstRsp_avail (t := t) (status_of_firstRsp hfirst) rx n
    rw [hfirst] at hread
    have hd' := delivers_read hrx hd (wants_pos hok)
    have hok' := (rxStep_effect t s (.got (rx.take (min n s.wants)))).ok hok
    simp only [handleRxData, Arrival.read]
    rcases hx : s.rxStep t (.got (rx.take (min n s.wants))) with ⟨s1, _ | code⟩
    · rw [hx, if_neg (by rintro ⟨⟩)] at hread
      rw [hx] at hok'
      have hrx' : rx.drop (min n s.wants) ≠ [] := by
        intro hnil
        rw [hnil] at hread
        cases hread
      obtain ⟨hlt, hok1, hd1⟩ := ih hok' hd' hread.symm hrx'
      exact ⟨Nat.lt_succ_of_lt hlt, hok1, hd1⟩
    · rw [hx] at hok'
      exact ⟨Nat.lt_succ_self _, hok', hd'⟩

/-- **Without failed reads and timeouts** the loop returns nothing but the first response. -/
theorem rspLoop_good {rx : List UInt8} {sched : List Arrival} {clock : List Int}
    (hgood : ∀ a ∈ sched, ∃ n, a = .avail n) (htime : ∀ now ∈ clock, s.client.timedOut now = false)
    {s' : AtState} {rest : List UInt8} (hfirst : firstRsp t s rx = some (s', rest))
    {line : Option (List UInt8)} {s'' : AtState} {h' : Host}
    (hloop : s.rspLoop t ⟨rx, sched⟩ clock = some (line, s'', h')) : line = s'.client.pRspParams := by
  induction clock generalizing s rx sched with
  | nil =>
    rw [rspLoop, if_pos (status_of_firstRsp hfirst)] at hloop
    cases hloop
  | cons now clock ih =>
    have hout := handleRxData_good hgood hfirst
    have hto := handleRxData_timedOut t s rx sched
    rw [rspLoop, if_pos (status_of_firstRsp hfirst)] at hloop
    rcases hx : s.handleRxData t rx sched with ⟨s1, uart1, ret⟩
    simp only [hx] at hout hto hloop
    rcases hout with ⟨rfl, rfl, -⟩ | ⟨hret, hgood1, hfirst1⟩
    · rw [if_pos rfl] at hloop
      exact (Prod.mk.inj (Option.some.inj hloop)).1.symm
    · have hnow : s1.client.timedOut now = false := (hto now).trans (htime now List.mem_cons_self)
      rw [if_neg hret, hnow, if_neg Bool.false_ne_true] at hloop
      exact ih hgood1 (fun n hn => (hto n).trans (htime n (List.mem_cons_of_mem _ hn))) hfirst1 hloop

/-- The loop finds the first response if the reads deliver the input before the timeout, and the reads that are
left deliver what is behind it. -/
theorem rspLoop_delivers (hok : RxOk s.client) {rx : List UInt8} {sched : List Arrival}
    {clock : List Int} (hd : Transaction.Delivers rx sched) (hlen : sched.length ≤ clock.length)
    (htime : ∀ now ∈ clock, s.client.timedOut now = false) {s' : AtState} {rest : List UInt8}
    (hfirst : firstRsp t s rx = some (s', rest)) :
    ∃ h', s.rspLoop t ⟨rx, sched⟩ clock = some (s'.client.pRspParams, s', h') ∧ h'.uart.rx = rest ∧
      Transaction.Delivers rest h'.uart.sched ∧ h'.uart.sched.length ≤ h'.clock.length ∧
      ∀ now ∈ h'.clock, now ∈ clock := by
  induction clock generalizing s rx sched with
  | nil =>
    obtain ⟨hlt, -⟩ := handleRxData_delivers hok hd hfirst
    exact absurd (Nat.lt_of_lt_of_le hlt hlen) (Nat.not_lt_zero _)
  | cons now clock ih =>
    obtain ⟨hlt, hok1, hd1⟩ := handleRxData_delivers hok hd hfirst
    have hout := handleRxData_good hd.good hfirst
    have hto := handleRxData_timedOut t s rx sched
    rw [rspLoop, if_pos (status_of_firstRsp hfirst)]
    rcases hx : s.handleRxData t rx sched with ⟨s1, uart1, ret⟩
    simp only [hx] at hlt hok1 hd1 hout hto ⊢
    rcases hout with ⟨rfl, rfl, rfl⟩ | ⟨hret, -, hfirst1⟩
    · exact ⟨⟨uart1, now :: clock⟩, rfl, rfl, hd1, Nat.le_trans (Nat.le_of_lt hlt) hlen, fun _ h => h⟩
    · have hnow : s1.client.timedOut now = false := (hto now).trans (htime now List.mem_cons_self)
      rw [if_neg hret, hnow, if_neg Bool.false_ne_true]
      have htime1 : ∀ n ∈ clock, s1.client.timedOut n = false :=
        fun n hn => (hto n).trans (htime n (List.mem_cons_of_mem _ hn))
      obtain ⟨h', hloop, hrx, hd2, hlen2, hclock⟩ :=
        ih hok1 hd1 (Nat.le_of_lt_succ (Nat.lt_of_lt_of_le hlt hlen)) htime1 hfirst1
      exact ⟨h', hloop, hrx, hd2, hlen2, fun n hn => List.mem_cons_of_mem _ (hclock n hn)⟩

/-- **The loop returns the first response** if the reads deliver the input before the timeout. -/
theorem rspLoop_of_firstRsp (hok : RxOk s.client) {rx : List UInt8} {sched : List Arrival}
    {clock : List Int} (hd : Transaction.Delivers rx sched) (hlen : sched.length ≤ clock.length)
    (htime : ∀ now ∈ clock, s.client.timedOut now = false) {s' : AtState} {rest : List UInt8}
    (hfirst : firstRsp t s rx = some (s', rest)) :
    ∃ h', s.rspLoop t ⟨rx, sched⟩ clock = some (s'.client.pRspParams, s', h') ∧ h'.uart.rx = rest := by
  obtain ⟨h', hloop, hrx, -⟩ := rspLoop_delivers hok hd hlen htime hfirst
  exact ⟨h', hloop, hrx⟩

/-- What the loop returns when the input is delivered in time. -/
theorem rspLoop_iff_firstRsp (hok : RxOk s.client) {uart : Uart} {clock : List Int}
    (hd : Transaction.Delivers uart.rx uart.sched) (hlen : uart.sched.length ≤ clock.length)
    (htime : ∀ now ∈ clock, s.client.timedOut now = false) (p rest : List UInt8) :
    (∃ s' h', s.rspLoop t uart clock = some (some p, s', h') ∧ h'.uart.rx = rest) ↔
      ∃ s', firstRsp t s uart.rx = some (s', rest) ∧ s'.client.pRspParams = some p := by
  constructor
  · rintro ⟨s', h', hloop, rfl⟩
    exact ⟨s', rspLoop_firstRsp hloop⟩
  · intro ⟨s', hfirst, hp⟩
    obtain ⟨h', hloop, hrest⟩ := rspLoop_of_firstRsp hok hd hlen htime hfirst
    exact ⟨s', h', hp ▸ hloop, hrest⟩

end

end AtState
