import UcxClient.Client.Configurations
import UcxClient.Port.ZephyrUart

/-!
# The RX task of the Zephyr port (`ports/os/u_port_zephyr.c`)

`uartIsr` ends with `uPortRxSignal`, which submits the work item of `rxTask` unless it is pending; to
`k_work_is_pending` an item is pending from its submission on until its function has returned. `RxSys` runs
the work queue with the UART (`UartSys`), while no command is executed and with a callback that calls nothing of
the client: every read that `uCxAtClientHandleRx` makes is a call of `uPortUartRead`, in between which bytes come in
and `uartIsr` runs.

Whatever the order of the steps, what `rxTask` has done is a number of calls of `uCxAtClientHandleRx` on the
bytes delivered (`RxSys.refines_receive`), so that the callback is given the URCs of these bytes
(`RxSys.urcs_in_order`). A signal that comes between the last read of `rxTask` and its return is lost:
bytes stay in the ring buffer exactly then, and where `handleRxData` returns while there are some
(`RxSys.rx_heard`). When the ring buffer fills up in between, no byte is received any more until a command reads
(`RxSys.stalled`).
-/

open RingBuffer Transition AtState

namespace Zephyr

/-- Where `rxTask` is. -/
inductive TaskPc where
  /-- in `handleRxData`, before its next read -/
  | next
  /-- in a read -/
  | reading
  /-- behind `handleRxData` -/
  | behind
  deriving DecidableEq

structure RxSys (ρ : Type) where
  uart : UartSys ρ
  /-- the work item has been submitted and not been taken up -/
  queued : Bool
  /-- where `rxTask` is, while it is running -/
  task : Option TaskPc
  client : AtState
  /-- the calls of the URC callback -/
  calls : List (AtClient × Urc.View)
  /-- the bytes delivered before `rxTask` was taken up last -/
  served : List UInt8

inductive RxAct where
  /-- a step of the device, the clock, `uartIsr` or a call of `uPortUartRead` -/
  | uart (a : UartAct)
  /-- the work queue takes up the item -/
  | start
  /-- the next read -/
  | request
  /-- the read returns -/
  | result
  /-- `rxTask` returns -/
  | finish

/-- What a call of `uPortUartRead` returns. -/
def ReadCall.result (c : ReadCall) : ReadStatus := if c.length = 0 then .failed (-1) else .got c.got

/-- The buffer of the next read is not NULL. -/
def hasData (s : AtState) : Bool :=
  !(s.client.isBinaryRx && decide (2 ≤ s.client.binaryRx.rxHeaderCount) && decide (0 < s.remainingBuf) &&
    decide (s.client.binaryRx.pBuffer = .null))

namespace RxSys

variable {ρ : Type} [RingBuffer ρ UInt8]

/-- Behind `uPortUartOpen` and `uPortBgRxTaskCreate`. -/
def uPortBgRxTaskCreate (uptime : Nat) (pClient : AtState) : RxSys ρ :=
  ⟨.uPortUartOpen uptime, false, none, pClient, [], []⟩

/-- `k_work_is_pending` -/
def workIsPending (s : RxSys ρ) : Bool := s.queued || s.task.isSome

def uPortRxSignal (s : RxSys ρ) : RxSys ρ := if !s.workIsPending then { s with queued := true } else s

/-- A step of the UART that is not the start or the end of a call. -/
def uartStep (s : RxSys ρ) (a : UartAct) : Option (RxSys ρ) :=
  match a with
  | .call _ _ _ => none
  | .isrExit =>
    (s.uart.step .isrExit).map fun uart =>
      match s.uart.isr with
      | .loop _ true => { s with uart }.uPortRxSignal
      | _ => { s with uart }
  | .read => if s.uart.read.any (·.pc = .ret) then none else (s.uart.step .read).map ({ s with uart := · })
  | a => (s.uart.step a).map ({ s with uart := · })

/-- The client once `uCxAtClientHandleRx` has `cmdMutex`. -/
def locked (t : Nat) (c : AtState) : AtState :=
  { c with client := { c.client with cmdMutex := c.client.cmdMutex.lock t } }

/-- Up to the first read. -/
def rxTaskStart (t : Nat) (s : RxSys ρ) : RxSys ρ :=
  if !s.client.client.opened then { s with queued := false, served := s.uart.delivered }
  else
    { s with
      queued := false
      served := s.uart.delivered
      client := locked t s.client
      task := some (if s.client.client.executingCmd then .behind else .next) }

/-- From `handleRxData` on. -/
def rxTaskFinish (t : Nat) (edit : Callback) (s : RxSys ρ) : Option (RxSys ρ) :=
  let client := { s.client.client with cmdMutex := s.client.client.cmdMutex.unlock t }
  (client.processUrcs t edit (client.urcQueue.bufferPos + 1)).map fun (calls, client) =>
    { s with task := none, client := { s.client with client }, calls := s.calls ++ calls }

/-- A step while thread `t` is that of the work queue. -/
def step (t : Nat) (timeoutMs : Int) (edit : Callback) (s : RxSys ρ) : RxAct → Option (RxSys ρ)
  | .uart a => s.uartStep a
  | .start => if s.uart.isr = .out ∧ s.task = none ∧ s.queued = true then some (s.rxTaskStart t) else none
  | .request =>
    if s.task = some .next then
      (s.uart.step (.call (hasData s.client) s.client.wants timeoutMs)).map
        ({ s with uart := ·, task := some .reading })
    else none
  | .result =>
    match s.uart.read with
    | some c =>
      if s.task = some .reading ∧ c.pc = .ret then
        (s.uart.step .read).map fun uart =>
          let (client, ret) := s.client.rxStep t c.result
          { s with uart, client, task := some (if ret.isSome then .behind else .next) }
      else none
    | none => none
  | .finish => if s.uart.isr = .out ∧ s.task = some .behind then s.rxTaskFinish t edit else none

end RxSys

/-! ## A call of `uPortUartRead` -/

/-- The call goes on. -/
def UartSys.Continues {ρ : Type} (s s' : UartSys ρ) : Prop :=
  s'.delivered = s.delivered ∧
  match s.read, s'.read with
  | none, none => True
  | some c, some c' => c'.length = c.length ∧ (c.got.length ≤ c.length → c'.got.length ≤ c'.length)
  | _, _ => False

section
variable {ρ : Type} {s s' : UartSys ρ} {c : ReadCall}

theorem UartSys.Continues.same (hd : s'.delivered = s.delivered) (hr : s'.read = s.read) : s.Continues s' := by
  refine ⟨hd, ?_⟩
  rw [hr]
  cases s.read with
  | none => trivial
  | some c => exact ⟨rfl, id⟩

theorem UartSys.Continues.goto (hd : s'.delivered = s.delivered) (hc : s.read = some c) {timePassedMs : Int}
    {pc : ReadPc} (hr : s'.read = some { c with timePassedMs, pc }) : s.Continues s' := by
  refine ⟨hd, ?_⟩
  rw [hc, hr]
  exact ⟨rfl, id⟩

/-- Where no call is in progress, none has begun. -/
theorem UartSys.Continues.read_none (h : s.Continues s') (hread : s.read = none) : s'.read = none := by
  have hcall := h.2
  rw [hread] at hcall
  cases hread' : s'.read with
  | none => rfl
  | some c =>
    rw [hread'] at hcall
    exact hcall.elim

theorem UartSys.continues_exit (s : UartSys ρ) (signalRxWorker : Bool) :
    s.Continues (s.uartIsrExit signalRxWorker) := by
  unfold uartIsrExit
  cases signalRxWorker with
  | false => exact .same rfl rfl
  | true =>
    simp only [if_true]
    obtain ⟨heq, -⟩ | ⟨c, deadline, hc, -, heq⟩ := UartSys.semGive_cases { s with isr := .out }
    · rw [heq]
      exact .same rfl rfl
    · rw [heq]
      exact .goto rfl hc rfl

variable [RingBuffer ρ UInt8]

/-- A call returns. -/
theorem UartSys.step_ret (hc : s.read = some c) (hpc : c.pc = .ret) (hs : s.step .read = some s') :
    s.isr = .out ∧ s' = { s with read := none, delivered := s.delivered ++ c.got } := by
  simp only [step] at hs
  split at hs
  · next hisr =>
    simp only [hc, Option.bind_some, uPortUartRead, hpc, Option.some.injEq] at hs
    exact ⟨hisr, hs.symm⟩
  · cases hs

theorem UartSys.continues_read (hc : s.read = some c) (hret : c.pc ≠ .ret) (hs : s.uPortUartRead c = some s') :
    s.Continues s' := by
  unfold uPortUartRead at hs
  cases hpc : c.pc with
  | test =>
    simp only [hpc, Option.some.injEq] at hs
    subst hs
    exact .goto rfl hc rfl
  | isEmpty =>
    simp only [hpc, Option.some.injEq] at hs
    subst hs
    exact .goto rfl hc rfl
  | semTake =>
    simp only [hpc] at hs
    split at hs
    · cases hs
      exact .goto rfl hc rfl
    · split at hs
      · cases hs
        exact .goto rfl hc rfl
      · cases hs
        exact .goto rfl hc rfl
  | suspended deadline =>
    simp only [hpc] at hs
    cases hs
  | irqDisable =>
    simp only [hpc, Option.some.injEq] at hs
    subst hs
    exact .goto rfl hc rfl
  | get =>
    simp only [hpc, Option.some.injEq] at hs
    subst hs
    refine ⟨rfl, ?_⟩
    rw [hc]
    refine ⟨rfl, fun hle => ?_⟩
    simp only [fst_get, List.length_append, List.length_take]
    omega
  | irqEnable =>
    simp only [hpc, Option.some.injEq] at hs
    subst hs
    exact .goto rfl hc rfl
  | uptime =>
    simp only [hpc, Option.some.injEq] at hs
    subst hs
    exact .goto rfl hc rfl
  | poll =>
    simp only [hpc, Option.some.injEq] at hs
    subst hs
    exact .goto rfl hc rfl
  | ret => exact absurd hpc hret

/-- **Within a call** a step delivers nothing, and the call has at most the bytes that it was asked for. -/
theorem UartSys.continues_step {a : UartAct} (hs : s.step a = some s') (hcall : ∀ d l m, a ≠ .call d l m)
    (hret : a = .read → ∀ c, s.read = some c → c.pc ≠ .ret) : s.Continues s' := by
  cases a with
  | arrive b =>
    cases hs
    exact .same rfl rfl
  | tick ms =>
    cases hs
    exact .same rfl rfl
  | isrEnter =>
    simp only [UartSys.step] at hs
    split at hs
    · cases hs
      exact .same rfl rfl
    · cases hs
  | isrTurn fifoRead =>
    simp only [UartSys.step] at hs
    split at hs
    · split at hs
      · unfold uartIsrTurn at hs
        simp only at hs
        split at hs
        · cases hs
          exact .same rfl rfl
        · split at hs
          · cases hs
            exact .same rfl rfl
          · cases hs
      · cases hs
    · cases hs
  | isrExit =>
    simp only [UartSys.step] at hs
    split at hs
    · split at hs
      · cases hs
      · cases hs
        exact continues_exit _ _
    · cases hs
  | call d l m => exact absurd rfl (hcall d l m)
  | read =>
    simp only [UartSys.step] at hs
    split at hs
    · obtain ⟨c, hc, hstep⟩ := Option.bind_eq_some_iff.1 hs
      exact continues_read hc (hret rfl c hc) hstep
    · cases hs
  | semTimeout =>
    simp only [UartSys.step] at hs
    split at hs
    · next c hc =>
      split at hs
      · split at hs
        · cases hs
          exact .goto rfl hc rfl
        · cases hs
      · cases hs
    · cases hs

end

/-! ## What `rxTask` has done -/

/-- Reads of `handleRxData` that bring `bs` take the client from `s` to `s'`. -/
def Reads (t : Nat) (s : AtState) (bs : List UInt8) (s' : AtState) : Prop :=
  ∃ sched, ∀ later sched', s.handleRxData t (bs ++ later) (sched ++ sched') = s'.handleRxData t later sched'

/-- `handleRxData` returns when its reads have brought `bs`. -/
def Returns (t : Nat) (s : AtState) (bs : List UInt8) (s' : AtState) : Prop :=
  ∃ sched ret, ∀ later sched', s.handleRxData t (bs ++ later) (sched ++ sched') = (s', ⟨later, sched'⟩, ret)

/-- A call of `uCxAtClientHandleRx` that takes the bytes `bs` leads from `c₁` to `c₂`. -/
def Calls (t : Nat) (edit : Callback) (c₁ : AtState) (bs : List UInt8) (calls : List (AtClient × Urc.View))
    (c₂ : AtState) : Prop :=
  ∃ sched, ∀ later sched', c₁.uCxAtClientHandleRx t edit ⟨bs ++ later, sched ++ sched'⟩ =
    some (calls, c₂, ⟨later, sched'⟩)

/-- Calls of `uCxAtClientHandleRx` that take `bs` from the input lead from `s` to `s'`, and hand the URCs
to the callback. -/
def Receives (t : Nat) (edit : Callback) (s : AtState) (bs : List UInt8) (urcs : List Urc) (s' : AtState) :
    Prop :=
  ∃ k sched, ∀ later sched',
    s.receive t edit k ⟨bs ++ later, sched ++ sched'⟩ = some (urcs, s', ⟨later, sched'⟩)

section
variable {t : Nat} {edit : Callback} {s s' s'' : AtState} {bs : List UInt8}

theorem Reads.refl (t : Nat) (s : AtState) : Reads t s [] s := ⟨[], fun _ _ => rfl⟩

/-- What a read finds that returns so. -/
theorem ReadCall.exists_arrival {c : ReadCall} (hlen : c.length = s.wants) (hle : c.got.length ≤ c.length) :
    ∃ a : Arrival, ∀ later, a.read (c.got ++ later) s.wants = (c.result, later) := by
  by_cases h0 : c.length = 0
  · have hnil : c.got = [] := List.eq_nil_of_length_eq_zero (by omega)
    exact ⟨.failed (-1), fun later => by rw [ReadCall.result, if_pos h0, hnil]; rfl⟩
  · refine ⟨.avail c.got.length, fun later => ?_⟩
    rw [ReadCall.result, if_neg h0, Arrival.read, Nat.min_eq_left (hlen ▸ hle), List.take_left, List.drop_left]

theorem Reads.next (h : Reads t s bs s') {c : ReadCall} (hlen : c.length = s'.wants)
    (hle : c.got.length ≤ c.length) (hs : s'.rxStep t c.result = (s'', none)) : Reads t s (bs ++ c.got) s'' := by
  obtain ⟨sched, h⟩ := h
  obtain ⟨a, ha⟩ := ReadCall.exists_arrival hlen hle
  refine ⟨sched ++ [a], fun later sched' => ?_⟩
  rw [List.append_assoc, List.append_assoc, h, List.singleton_append, handleRxData, ha]
  simp only [hs]

theorem Reads.returns (h : Reads t s bs s') {c : ReadCall} (hlen : c.length = s'.wants)
    (hle : c.got.length ≤ c.length) {ret : ParserCode} (hs : s'.rxStep t c.result = (s'', some ret)) :
    Returns t s (bs ++ c.got) s'' := by
  obtain ⟨sched, h⟩ := h
  obtain ⟨a, ha⟩ := ReadCall.exists_arrival hlen hle
  refine ⟨sched ++ [a], ret, fun later sched' => ?_⟩
  rw [List.append_assoc, List.append_assoc, h, List.singleton_append, handleRxData, ha]
  simp only [hs]

/-- One more call at the end. -/
theorem receive_snoc (t : Nat) (edit : Callback) (k : Nat) (s : AtState) (uart : Uart) :
    s.receive t edit (k + 1) uart =
      (s.receive t edit k uart).bind fun (urcs, s, uart) =>
        (s.uCxAtClientHandleRx t edit uart).map fun (calls, s, uart) =>
          (urcs ++ calls.map (·.2.urc), s, uart) := by
  induction k generalizing s uart with
  | zero => simp only [receive, Option.bind_some, List.append_nil, List.nil_append,
      Option.map_eq_bind, Function.comp_def]
  | succ k ih =>
    rw [receive]
    cases hcall : s.uCxAtClientHandleRx t edit uart with
    | none => simp only [receive, hcall, Option.bind_none]
    | some x =>
      obtain ⟨calls, s1, uart1⟩ := x
      simp only [Option.bind_some]
      rw [ih s1 uart1]
      simp only [receive, hcall, Option.bind_some, Option.map_bind, Option.bind_map, Function.comp_def,
        Option.map_map, List.append_assoc]

theorem Receives.refl (t : Nat) (edit : Callback) (s : AtState) : Receives t edit s [] [] s :=
  ⟨0, [], fun _ _ => rfl⟩

theorem Receives.call {urcs : List Urc} (h : Receives t edit s bs urcs s') {bs' : List UInt8}
    {calls : List (AtClient × Urc.View)} (hcall : Calls t edit s' bs' calls s'') :
    Receives t edit s (bs ++ bs') (urcs ++ calls.map (·.2.urc)) s'' := by
  obtain ⟨k, sched₀, h⟩ := h
  obtain ⟨sched, hcall⟩ := hcall
  refine ⟨k + 1, sched₀ ++ sched, fun later sched' => ?_⟩
  rw [receive_snoc, List.append_assoc, List.append_assoc, h, Option.bind_some]
  simp only [hcall, Option.map_some]

end

namespace RxSys

variable {ρ : Type} {s s' : RxSys ρ} {t : Nat} {timeoutMs : Int} {edit : Callback} {c₀ c₁ : AtState}
  {P : List UInt8 → List Urc → AtState → Prop}

/-- Where `rxTask` is with the client that it found as `c₁`, having read `bs`. -/
def InTask (t : Nat) (s : RxSys ρ) (c₁ : AtState) (bs : List UInt8) : TaskPc → Prop
  | .next => s.uart.read = none ∧ c₁.client.executingCmd = false ∧ Reads t (locked t c₁) bs s.client
  | .reading => c₁.client.executingCmd = false ∧ Reads t (locked t c₁) bs s.client ∧
      ∃ c, s.uart.read = some c ∧ c.length = s.client.wants ∧ c.got.length ≤ c.length
  | .behind => s.uart.read = none ∧
      (c₁.client.executingCmd = true ∧ bs = [] ∧ s.client = locked t c₁ ∨
        c₁.client.executingCmd = false ∧ Returns t (locked t c₁) bs s.client)

/-- Between two runs of `rxTask`, `P` holds of the bytes delivered, the URCs handed out and the client. -/
def Inv (t : Nat) (P : List UInt8 → List Urc → AtState → Prop) (s : RxSys ρ) : Prop :=
  match s.task with
  | none => s.uart.read = none ∧ P s.uart.delivered (s.calls.map (·.2.urc)) s.client
  | some pc => ∃ c₁ bs, s.uart.delivered = s.served ++ bs ∧ P s.served (s.calls.map (·.2.urc)) c₁ ∧
      c₁.client.opened = true ∧ s.InTask t c₁ bs pc

/-- A call returns with what `rxTask` has done. -/
theorem InTask.handleRx {bs : List UInt8} (h : s.InTask t c₁ bs .behind) (hopen : c₁.client.opened = true)
    (hs : s.rxTaskFinish t edit = some s') :
    ∃ calls client, s' = { s with task := none, client, calls := s.calls ++ calls } ∧
      Calls t edit c₁ bs calls client := by
  unfold rxTaskFinish at hs
  obtain ⟨⟨calls, client⟩, hurcs, rfl⟩ := Option.map_eq_some_iff.1 hs
  have hnot : (!c₁.client.opened) = false := by rw [hopen]; rfl
  obtain ⟨hexec, hbs, hclient⟩ | ⟨hexec, sched, ret, hret⟩ := h.2
  · refine ⟨calls, _, rfl, [], fun later sched' => ?_⟩
    have hlocked : c₁.handleRxLocked t ⟨bs ++ later, [] ++ sched'⟩ =
        ({ s.client with client := { s.client.client with cmdMutex := s.client.client.cmdMutex.unlock t } },
          ⟨later, sched'⟩) := by
      rw [hbs, hclient]
      simp only [handleRxLocked, hexec, if_true, List.nil_append, locked]
    simp only [uCxAtClientHandleRx, hnot, Bool.false_eq_true, if_false, hlocked, hurcs, Option.map_some]
  · refine ⟨calls, _, rfl, sched, fun later sched' => ?_⟩
    have hdata := hret later sched'
    unfold locked at hdata
    have hlocked : c₁.handleRxLocked t ⟨bs ++ later, sched ++ sched'⟩ =
        ({ s.client with client := { s.client.client with cmdMutex := s.client.client.cmdMutex.unlock t } },
          ⟨later, sched'⟩) := by
      rw [handleRxLocked_idle t hexec]
      simp only [hdata]
    simp only [uCxAtClientHandleRx, hnot, Bool.false_eq_true, if_false, hlocked, hurcs, Option.map_some]

variable [RingBuffer ρ UInt8]

/-! ## The steps of `rxTask` -/

theorem step_start (hs : s.step t timeoutMs edit .start = some s') :
    s.uart.isr = .out ∧ s.task = none ∧ s.queued = true ∧ s' = s.rxTaskStart t := by
  simp only [RxSys.step] at hs
  split at hs
  · next hstart => exact ⟨hstart.1, hstart.2.1, hstart.2.2, (Option.some.inj hs).symm⟩
  · cases hs

theorem step_request (hs : s.step t timeoutMs edit .request = some s') : s.task = some .next ∧
    ∃ uart, s.uart.step (.call (hasData s.client) s.client.wants timeoutMs) = some uart ∧
      s' = { s with uart, task := some .reading } := by
  simp only [RxSys.step] at hs
  split at hs
  · next htask =>
    obtain ⟨uart, hstep, rfl⟩ := Option.map_eq_some_iff.1 hs
    exact ⟨htask, uart, hstep, rfl⟩
  · cases hs

theorem step_result (hs : s.step t timeoutMs edit .result = some s') : s.task = some .reading ∧
    ∃ c uart, s.uart.read = some c ∧ s.uart.step .read = some uart ∧ s.uart.isr = .out ∧
      uart = { s.uart with read := none, delivered := s.uart.delivered ++ c.got } ∧
      s' = { s with
        uart
        client := (s.client.rxStep t c.result).1
        task := some (if (s.client.rxStep t c.result).2.isSome then .behind else .next) } := by
  simp only [RxSys.step] at hs
  split at hs
  · next c hc =>
    split at hs
    · next htask =>
      obtain ⟨uart, hstep, rfl⟩ := Option.map_eq_some_iff.1 hs
      obtain ⟨hisr, heq⟩ := UartSys.step_ret hc htask.2 hstep
      exact ⟨htask.1, c, uart, hc, hstep, hisr, heq, rfl⟩
    · cases hs
  · cases hs

theorem step_finish (hs : s.step t timeoutMs edit .finish = some s') :
    s.uart.isr = .out ∧ s.task = some .behind ∧ s.rxTaskFinish t edit = some s' := by
  simp only [RxSys.step] at hs
  split at hs
  · next hready => exact ⟨hready.1, hready.2, hs⟩
  · cases hs

/-- A step of the UART goes on with the call. -/
theorem uartStep_cases {a : UartAct} (hs : s.uartStep a = some s') :
    ∃ uart queued, s' = { s with uart, queued } ∧ s.uart.step a = some uart ∧ s.uart.Continues uart := by
  have hframe : ∀ {uart : UartSys ρ}, s.uart.step a = some uart → (∀ d l m, a ≠ .call d l m) →
      (a = .read → ∀ c, s.uart.read = some c → c.pc ≠ .ret) → s.uart.Continues uart :=
    UartSys.continues_step
  unfold uartStep at hs
  split at hs
  · cases hs
  · obtain ⟨uart, hstep, rfl⟩ := Option.map_eq_some_iff.1 hs
    refine ⟨uart, ?_⟩
    split
    · refine ⟨(uPortRxSignal { s with uart }).queued, ?_, hstep, hframe hstep (by simp) (by simp)⟩
      unfold uPortRxSignal
      split <;> rfl
    · exact ⟨s.queued, rfl, hstep, hframe hstep (by simp) (by simp)⟩
  · split at hs
    · cases hs
    · next hret =>
      obtain ⟨uart, hstep, rfl⟩ := Option.map_eq_some_iff.1 hs
      refine ⟨uart, s.queued, rfl, hstep, hframe hstep (by simp) fun _ c hc hpc => hret ?_⟩
      rw [hc]
      exact decide_eq_true hpc
  · next hcall hexit hread =>
    obtain ⟨uart, hstep, rfl⟩ := Option.map_eq_some_iff.1 hs
    exact ⟨uart, s.queued, rfl, hstep, hframe hstep hcall fun heq => absurd heq hread⟩

theorem Inv.uart {a : UartAct} (h : Inv t P s) (hs : s.uartStep a = some s') : Inv t P s' := by
  obtain ⟨uart, queued, rfl, -, hcont⟩ := uartStep_cases hs
  have hnone := hcont.read_none
  obtain ⟨hdel, hcall⟩ := hcont
  unfold Inv at h ⊢
  cases htask : s.task with
  | none =>
    rw [htask] at h
    exact ⟨hnone h.1, hdel ▸ h.2⟩
  | some pc =>
    rw [htask] at h
    obtain ⟨c₁, bs, hbs, hP, hopen, hin⟩ := h
    refine ⟨c₁, bs, hdel.trans hbs, hP, hopen, ?_⟩
    cases pc with
    | next => exact ⟨hnone hin.1, hin.2⟩
    | behind => exact ⟨hnone hin.1, hin.2⟩
    | reading =>
      obtain ⟨hexec, hreads, c, hc, hlen, hle⟩ := hin
      refine ⟨hexec, hreads, ?_⟩
      rw [hc] at hcall
      cases hu : uart.read with
      | none =>
        rw [hu] at hcall
        exact hcall.elim
      | some c' =>
        rw [hu] at hcall
        exact ⟨c', rfl, hcall.1.trans hlen, hcall.2 hle⟩

/-- **A step**: only the end of `rxTask` is one for `P`. -/
theorem Inv.step {a : RxAct} (h : Inv t P s) (hs : s.step t timeoutMs edit a = some s')
    (hcall : a = .finish → ∀ c₁ bs calls c₂, s.uart.delivered = s.served ++ bs →
      P s.served (s.calls.map (·.2.urc)) c₁ → Calls t edit c₁ bs calls c₂ →
      P (s.served ++ bs) (s.calls.map (·.2.urc) ++ calls.map (·.2.urc)) c₂) : Inv t P s' := by
  cases a with
  | uart a => exact h.uart hs
  | start =>
    obtain ⟨-, htask, -, rfl⟩ := step_start hs
    simp only [Inv, htask] at h
    unfold rxTaskStart
    split
    · simpa only [Inv, htask] using h
    · next hopen =>
      have hopen : s.client.client.opened = true := by simpa using hopen
      refine ⟨s.client, [], (List.append_nil _).symm, h.2, hopen, ?_⟩
      by_cases hexec : s.client.client.executingCmd = true
      · rw [if_pos hexec]
        exact ⟨h.1, .inl ⟨hexec, rfl, rfl⟩⟩
      · rw [if_neg hexec]
        exact ⟨h.1, Bool.eq_false_of_not_eq_true hexec, .refl t _⟩
  | request =>
    obtain ⟨htask, uart, hstep, rfl⟩ := step_request hs
    simp only [Inv, htask] at h
    obtain ⟨c₁, bs, hbs, hP, hopen, hfree, hexec, hreads⟩ := h
    simp only [UartSys.step] at hstep
    split at hstep
    · cases hstep
      exact ⟨c₁, bs, hbs, hP, hopen, hexec, hreads, _, rfl, rfl, Nat.zero_le _⟩
    · cases hstep
  | result =>
    obtain ⟨htask, c, uart, hc, -, -, rfl, rfl⟩ := step_result hs
    simp only [Inv, htask] at h
    obtain ⟨c₁, bs, hbs, hP, hopen, hexec, hreads, d, hd, hlen, hle⟩ := h
    rw [hc] at hd
    cases hd
    have hdel : s.uart.delivered ++ c.got = s.served ++ (bs ++ c.got) := by
      rw [hbs, List.append_assoc]
    rcases hrx : s.client.rxStep t c.result with ⟨client, _ | ret⟩
    · exact ⟨c₁, _, hdel, hP, hopen, rfl, hexec, hreads.next hlen hle hrx⟩
    · exact ⟨c₁, _, hdel, hP, hopen, rfl, .inr ⟨hexec, hreads.returns hlen hle hrx⟩⟩
  | finish =>
    obtain ⟨-, htask, hfin⟩ := step_finish hs
    simp only [Inv, htask] at h
    obtain ⟨c₁, bs, hbs, hP, hopen, hin⟩ := h
    obtain ⟨calls, client, rfl, hhandle⟩ := InTask.handleRx hin hopen hfin
    refine ⟨hin.1, ?_⟩
    rw [hbs, List.map_append]
    exact hcall rfl c₁ bs calls client hbs hP hhandle

/-! ## Every run -/

/-- `P` holds between two runs of `rxTask`, if every run that meets the condition keeps it. -/
theorem reach_inv {ok : RxSys ρ → RxAct → Prop} (h0 : P [] [] c₀)
    (hcall : ∀ s : RxSys ρ, ok s .finish → ∀ c₁ bs calls c₂, s.uart.delivered = s.served ++ bs →
      P s.served (s.calls.map (·.2.urc)) c₁ → Calls t edit c₁ bs calls c₂ →
      P (s.served ++ bs) (s.calls.map (·.2.urc) ++ calls.map (·.2.urc)) c₂)
    (h : Reach (step t timeoutMs edit) ok (∃ uptime, · = uPortBgRxTaskCreate uptime c₀) s) : Inv t P s := by
  refine Reach.invariant ?_ (fun s a s' hinv hok hs => hinv.step hs ?_) h
  · rintro _ ⟨uptime, rfl⟩
    exact ⟨rfl, h0⟩
  · rintro rfl
    exact hcall s hok

/-- The UART does what it does on its own. -/
theorem step_uart {a : RxAct} (hs : s.step t timeoutMs edit a = some s') :
    s'.uart = s.uart ∨ ∃ b, s.uart.step b = some s'.uart := by
  cases a with
  | uart a =>
    obtain ⟨uart, queued, rfl, hstep, -⟩ := uartStep_cases hs
    exact .inr ⟨a, hstep⟩
  | start =>
    obtain ⟨-, -, -, rfl⟩ := step_start hs
    unfold rxTaskStart
    split <;> exact .inl rfl
  | request =>
    obtain ⟨-, uart, hstep, rfl⟩ := step_request hs
    exact .inr ⟨_, hstep⟩
  | result =>
    obtain ⟨-, c, uart, -, hstep, -, -, rfl⟩ := step_result hs
    exact .inr ⟨_, hstep⟩
  | finish =>
    obtain ⟨-, -, hfin⟩ := step_finish hs
    obtain ⟨-, -, rfl⟩ := Option.map_eq_some_iff.1 hfin
    exact .inl rfl

theorem reach_uart {ok : RxSys ρ → RxAct → Prop}
    (h : Reach (step t timeoutMs edit) ok (∃ uptime, · = uPortBgRxTaskCreate uptime c₀) s) :
    s.uart.Reachable := by
  refine Reach.invariant (I := fun s => s.uart.Reachable) ?_ ?_ h
  · rintro _ ⟨uptime, rfl⟩
    exact .start ⟨uptime, rfl⟩
  · intro s a s' hreach _ hs
    obtain heq | ⟨b, hstep⟩ := step_uart hs
    · rw [heq]
      exact hreach
    · exact .next hreach trivial hstep

/-- **Whatever the order of the steps**, the runs of `rxTask` have done what calls of `uCxAtClientHandleRx` do
with the bytes delivered, which are the first that arrived. -/
theorem refines_receive
    (h : Reach (step t timeoutMs edit) anyStep (∃ uptime, · = uPortBgRxTaskCreate uptime c₀) s)
    (htask : s.task = none) :
    Receives t edit c₀ s.uart.delivered (s.calls.map (·.2.urc)) s.client ∧
      s.uart.arrived = s.uart.delivered ++ contents s.uart.rxRingBuf ++ s.uart.fifo := by
  have hinv := reach_inv (P := Receives t edit c₀) (.refl t edit c₀)
    (fun s _ c₁ bs calls c₂ _ hP hcall => hP.call hcall) h
  rw [Inv, htask] at hinv
  have horder := (UartSys.reads_in_order (reach_uart h)).1
  rw [UartSys.got_none hinv.1, List.append_nil] at horder
  exact ⟨hinv.2, horder.symm⟩

/-- The bytes as a reader of the stream takes them. -/
def reader (c₀ : AtState) (bs : List UInt8) : UrcReader × List UrcEvent :=
  UrcReader.read c₀.client.rxBufferLen ⟨c₀.client.rxBuffer, .text⟩ bs

/-- `rxTask` returns outside the payload of a URC, and the URCs that it has received have room in the queue. -/
def Room (c₀ : AtState) (s : RxSys ρ) : RxAct → Prop
  | .finish => (reader c₀ s.uart.delivered).1.phase.needs = 0 ∧
      UrcEvent.needs (UrcReader.read c₀.client.rxBufferLen (reader c₀ s.served).1
        (s.uart.delivered.drop s.served.length)).2 < c₀.client.urcQueue.bufferLen % 65536
  | _ => True

instance (c₀ : AtState) (s : RxSys ρ) : (a : RxAct) → Decidable (Room c₀ s a)
  | .finish => inferInstanceAs (Decidable (_ ∧ _))
  | .uart _ | .start | .request | .result => inferInstanceAs (Decidable True)

/-- A read without a timeout that brings a byte. -/
def readByte : List RxAct := .request :: List.replicate 4 (.uart .read) ++ [.result]

/-- `+A` comes in, and `rxTask` runs. -/
def afterLine : RxSys (ArrayRing UInt8) :=
  (runIf (fun s a => decide (Room opened s a)) (step 0 0 id) (uPortBgRxTaskCreate 0 opened)
    ((text "+A\r").map (.uart <| .arrive ·) ++ [.uart .isrEnter, .uart (.isrTurn 3), .uart .isrExit, .start] ++
      readByte ++ readByte ++ readByte ++ [.request, .uart .read, .result, .finish])).get (by decide +kernel)

theorem refines_receive_line :
    Receives 0 id opened afterLine.uart.delivered (afterLine.calls.map (·.2.urc)) afterLine.client ∧
      afterLine.uart.arrived =
        afterLine.uart.delivered ++ contents afterLine.uart.rxRingBuf ++ afterLine.uart.fifo := by
  have h : Reach (step 0 0 id) anyStep (∃ uptime, · = uPortBgRxTaskCreate uptime opened) afterLine :=
    Reach.runIf (.start ⟨0, rfl⟩) (fun _ _ _ => trivial) (Option.some_get _).symm
  exact refines_receive h (by decide +kernel)

end RxSys

theorem UartSys.step_isrExit {ρ : Type} [RingBuffer ρ UInt8] {s s' : UartSys ρ}
    (hs : s.step .isrExit = some s') : s'.isr = .out ∧ s'.rxRingBuf = s.rxRingBuf := by
  simp only [UartSys.step] at hs
  split at hs
  · split at hs
    · cases hs
    · cases hs
      unfold uartIsrExit
      split
      · obtain ⟨heq, -⟩ | ⟨c, deadline, -, -, heq⟩ := UartSys.semGive_cases { s with isr := .out } <;>
          exact heq ▸ ⟨rfl, rfl⟩
      · exact ⟨rfl, rfl⟩
  · cases hs

/-- A step puts bytes in the ring buffer in `uartIsr` only, which is then going to say so. -/
theorem UartSys.step_put {ρ : Type} [RingBuffer ρ UInt8] {s s' : UartSys ρ} {a : UartAct} (h : s.Inv)
    (hs : s.step a = some s') (ha : a ≠ .isrExit) (hne : contents s'.rxRingBuf ≠ []) :
    s'.Giving ∨ contents s.rxRingBuf ≠ [] ∧ ¬s.Giving := by
  have hsame : s'.rxRingBuf = s.rxRingBuf → s'.isr = s.isr →
      s'.Giving ∨ contents s.rxRingBuf ≠ [] ∧ ¬s.Giving := by
    intro hring hisr
    by_cases hg : s.Giving
    · obtain ⟨ret, hr⟩ := hg
      exact .inl ⟨ret, hisr.trans hr⟩
    · exact .inr ⟨hring ▸ hne, hg⟩
  have hout : s.isr = .out → ¬s.Giving := by
    rintro hisr ⟨ret, hr⟩
    rw [hisr] at hr
    cases hr
  cases a with
  | arrive b =>
    cases hs
    exact hsame rfl rfl
  | tick ms =>
    cases hs
    exact hsame rfl rfl
  | isrEnter =>
    simp only [UartSys.step] at hs
    split at hs
    · next hin =>
      cases hs
      exact .inr ⟨hne, hout hin.1⟩
    · cases hs
  | isrTurn fifoRead =>
    simp only [UartSys.step] at hs
    split at hs
    · split at hs
      · obtain ⟨-, -, -, -, -, hgive, -⟩ := uartIsrTurn_cases h.capacity hs
        exact .inl hgive
      · cases hs
    · cases hs
  | isrExit => exact absurd rfl ha
  | call d l m =>
    simp only [UartSys.step] at hs
    split at hs
    · cases hs
      exact hsame rfl rfl
    · cases hs
  | read =>
    simp only [UartSys.step] at hs
    split at hs
    · next hisr =>
      obtain ⟨c, hc, hstep⟩ := Option.bind_eq_some_iff.1 hs
      refine .inr ⟨fun hnil => hne ?_, hout hisr⟩
      unfold uPortUartRead at hstep
      cases hpc : c.pc with
      | get =>
        simp only [hpc, Option.some.injEq] at hstep
        subst hstep
        rw [contents_get, hnil, List.drop_nil]
      | semTake =>
        simp only [hpc] at hstep
        split at hstep
        · cases hstep
          exact hnil
        · split at hstep <;> cases hstep <;> exact hnil
      | suspended deadline =>
        simp only [hpc] at hstep
        cases hstep
      | _ =>
        simp only [hpc, Option.some.injEq] at hstep
        subst hstep
        exact hnil
    · cases hs
  | semTimeout =>
    simp only [UartSys.step] at hs
    split at hs
    · split at hs
      · split at hs
        · cases hs
          exact hsame rfl rfl
        · cases hs
      · cases hs
    · cases hs

/-- While no call is in progress, what is in the ring buffer stays there. -/
theorem UartSys.step_contents {ρ : Type} [RingBuffer ρ UInt8] {s s' : UartSys ρ} {a : UartAct} (h : s.Inv)
    (hread : s.read = none) (hs : s.step a = some s') : contents s.rxRingBuf <+: contents s'.rxRingBuf := by
  cases a with
  | arrive b =>
    cases hs
    exact List.prefix_refl _
  | tick ms =>
    cases hs
    exact List.prefix_refl _
  | isrEnter =>
    simp only [UartSys.step] at hs
    split at hs
    · cases hs
      exact List.prefix_refl _
    · cases hs
  | isrTurn fifoRead =>
    simp only [UartSys.step] at hs
    split at hs
    · split at hs
      · obtain ⟨k, -, hput, -⟩ := uartIsrTurn_cases h.capacity hs
        exact ⟨s.fifo.take k, hput.symm⟩
      · cases hs
    · cases hs
  | isrExit => rw [(UartSys.step_isrExit hs).2]
  | call d l m =>
    simp only [UartSys.step] at hs
    split at hs
    · cases hs
      exact List.prefix_refl _
    · cases hs
  | read =>
    simp only [UartSys.step, hread] at hs
    split at hs <;> cases hs
  | semTimeout =>
    simp only [UartSys.step, hread] at hs
    cases hs

namespace RxSys

variable {ρ : Type} {s s' : RxSys ρ} {t : Nat} {timeoutMs : Int} {edit : Callback} {c₀ : AtState}

/-- `rxTask` is neither running nor going to run. -/
def Quiet (s : RxSys ρ) : Prop := s.task = none ∧ s.queued = false ∧ s.uart.isr = .out

theorem finish_cases (hs : s.rxTaskFinish t edit = some s') :
    ∃ client calls, s' = { s with task := none, client, calls } ∧ client.client.opened = s.client.client.opened ∧
      client.client.executingCmd = s.client.client.executingCmd := by
  unfold rxTaskFinish at hs
  obtain ⟨⟨calls, client⟩, hurcs, rfl⟩ := Option.map_eq_some_iff.1 hs
  obtain ⟨calls', urcQueue, htotal⟩ := AtClient.processUrcs_total t edit
    (c := { s.client.client with cmdMutex := s.client.client.cmdMutex.unlock t }) (Nat.lt_succ_self _)
  rw [htotal] at hurcs
  cases hurcs
  exact ⟨_, _, rfl, rfl, rfl⟩

theorem exists_finish (t : Nat) (edit : Callback) (s : RxSys ρ) : ∃ client calls,
    s.rxTaskFinish t edit = some { s with task := none, client, calls } := by
  cases hfin : s.rxTaskFinish t edit with
  | none =>
    unfold rxTaskFinish at hfin
    obtain ⟨_, _, htotal⟩ := AtClient.processUrcs_total t edit
      (c := { s.client.client with cmdMutex := s.client.client.cmdMutex.unlock t }) (Nat.lt_succ_self _)
    have hnone := Option.map_eq_none_iff.1 hfin
    rw [htotal] at hnone
    cases hnone
  | some s' =>
    obtain ⟨client, calls, rfl, -⟩ := finish_cases hfin
    exact ⟨client, calls, rfl⟩

variable [RingBuffer ρ UInt8]

/-- There are bytes that `rxTask` could fetch. -/
def Stranded (s : RxSys ρ) : Prop := s.Quiet ∧ contents s.uart.rxRingBuf ≠ []

/-- With bytes in the ring buffer, `uartIsr` does not signal while `rxTask` is behind its last read, and
`handleRxData` does not return. -/
def Heard (t : Nat) (s : RxSys ρ) : RxAct → Prop
  | .uart .isrExit => s.task = some .behind → contents s.uart.rxRingBuf = []
  | .result => ∀ c, s.uart.read = some c → (s.client.rxStep t c.result).2 ≠ none →
      contents s.uart.rxRingBuf = []
  | _ => True

instance (t : Nat) (s : RxSys ρ) : (a : RxAct) → Decidable (Heard t s a)
  | .uart .isrExit => inferInstanceAs (Decidable (_ → _))
  | .result => inferInstanceAs (Decidable (∀ c ∈ s.uart.read, _ → _))
  | .uart (.arrive _) | .uart (.tick _) | .uart .isrEnter | .uart (.isrTurn _) | .uart (.call _ _ _)
  | .uart .read | .uart .semTimeout | .start | .request | .finish => inferInstanceAs (Decidable True)

/-- `rxTask` can return at once, and whatever else happens before it does, it leaves bytes behind. -/
def LeavesBytes (t : Nat) (timeoutMs : Int) (edit : Callback) (s : RxSys ρ) : Prop :=
  (∃ s', s.step t timeoutMs edit .finish = some s') ∧
  ∀ as s₁ s₂, .finish ∉ as → run (step t timeoutMs edit) s as = some s₁ →
    s₁.step t timeoutMs edit .finish = some s₂ → s₂.Stranded

/-- Somebody is going to look for the bytes in the ring buffer. -/
structure Attended (s : RxSys ρ) : Prop where
  opened : s.client.client.opened = true
  idle : s.client.client.executingCmd = false
  queued : s.task ≠ none → s.queued = false
  heard : contents s.uart.rxRingBuf ≠ [] →
    s.uart.Giving ∨ s.queued = true ∨ s.task = some .next ∨ s.task = some .reading

/-- The end of `uartIsr`. -/
theorem uartStep_exit (hs : s.uartStep .isrExit = some s') : ∃ uart, s.uart.step .isrExit = some uart ∧
    (s.uart.Giving ∧ s' = uPortRxSignal { s with uart } ∨ ¬s.uart.Giving ∧ s' = { s with uart }) := by
  simp only [uartStep] at hs
  obtain ⟨uart, hstep, rfl⟩ := Option.map_eq_some_iff.1 hs
  refine ⟨uart, hstep, ?_⟩
  split
  · next ret hisr => exact .inl ⟨⟨ret, hisr⟩, rfl⟩
  · next hnot => exact .inr ⟨fun ⟨ret, hr⟩ => hnot ret hr, rfl⟩

/-- Every other step of the UART leaves the work item alone. -/
theorem uartStep_other {a : UartAct} (ha : a ≠ .isrExit) (hs : s.uartStep a = some s') :
    ∃ uart, s.uart.step a = some uart ∧ s' = { s with uart } := by
  unfold uartStep at hs
  split at hs
  · cases hs
  · exact absurd rfl ha
  · split at hs
    · cases hs
    · obtain ⟨uart, hstep, rfl⟩ := Option.map_eq_some_iff.1 hs
      exact ⟨uart, hstep, rfl⟩
  · obtain ⟨uart, hstep, rfl⟩ := Option.map_eq_some_iff.1 hs
    exact ⟨uart, hstep, rfl⟩

theorem Attended.uart {a : UartAct} (h : s.Attended) (huart : s.uart.Inv) (hok : Heard t s (.uart a))
    (hs : s.uartStep a = some s') : s'.Attended := by
  by_cases hexit : a = .isrExit
  · subst hexit
    obtain ⟨uart, hstep, ⟨-, rfl⟩ | ⟨hnot, rfl⟩⟩ := uartStep_exit hs
    · unfold uPortRxSignal
      split
      · next hpend =>
        simp only [workIsPending, Bool.not_eq_true', Bool.or_eq_false_iff] at hpend
        refine ⟨h.opened, h.idle, fun htask => ?_, fun _ => .inr (.inl rfl)⟩
        cases hpc : s.task with
        | none => exact absurd hpc htask
        | some pc => simp [hpc] at hpend
      · next hpend =>
        refine ⟨h.opened, h.idle, h.queued, fun hne => .inr ?_⟩
        rw [(UartSys.step_isrExit hstep).2] at hne
        -- the item is pending, and `rxTask` is not behind its last read
        cases htask : s.task with
        | none => exact .inl (by simpa [workIsPending, htask] using hpend)
        | some pc =>
          cases pc with
          | next => exact .inr (.inl rfl)
          | reading => exact .inr (.inr rfl)
          | behind => exact absurd (hok htask) hne
    · refine ⟨h.opened, h.idle, h.queued, fun hne => .inr ?_⟩
      rw [(UartSys.step_isrExit hstep).2] at hne
      exact (h.heard hne).resolve_left hnot
  · obtain ⟨uart, hstep, rfl⟩ := uartStep_other hexit hs
    refine ⟨h.opened, h.idle, h.queued, fun hne => ?_⟩
    obtain hgive | ⟨hbefore, hnot⟩ := UartSys.step_put huart hstep hexit hne
    · exact .inl hgive
    · exact .inr ((h.heard hbefore).resolve_left hnot)

theorem Attended.step {a : RxAct} (h : s.Attended) (huart : s.uart.Inv) (hok : Heard t s a)
    (hs : s.step t timeoutMs edit a = some s') : s'.Attended := by
  cases a with
  | uart a => exact h.uart huart hok hs
  | start =>
    obtain ⟨-, -, -, rfl⟩ := step_start hs
    unfold rxTaskStart
    rw [if_neg (by rw [h.opened]; decide), h.idle]
    exact ⟨h.opened, h.idle, fun _ => rfl, fun _ => .inr (.inr (.inl rfl))⟩
  | request =>
    obtain ⟨htask, uart, -, rfl⟩ := step_request hs
    exact ⟨h.opened, h.idle, fun _ => h.queued (by simp [htask]), fun _ => .inr (.inr (.inr rfl))⟩
  | result =>
    obtain ⟨htask, c, uart, hc, -, -, rfl, rfl⟩ := step_result hs
    have hsetup := (rxStep_effect t s.client c.result).setup
    refine ⟨(congrArg Setup.opened hsetup).trans h.opened, (congrArg Setup.executingCmd hsetup).trans h.idle,
      fun _ => h.queued (by simp [htask]), fun hne => ?_⟩
    cases hret : (s.client.rxStep t c.result).2 with
    | none => exact .inr (.inr (.inl rfl))
    | some ret => exact absurd (hok c hc (by simp [hret])) hne
  | finish =>
    obtain ⟨hisr, htask, hfin⟩ := step_finish hs
    obtain ⟨client, calls, rfl, hopened, hidle⟩ := finish_cases hfin
    refine ⟨hopened.trans h.opened, hidle.trans h.idle, fun hn => absurd rfl hn, fun hne => ?_⟩
    obtain ⟨ret, hg⟩ | hq | hn | hr := h.heard hne
    · rw [hisr] at hg
      cases hg
    · exact .inr (.inl hq)
    · rw [htask] at hn
      cases hn
    · rw [htask] at hr
      cases hr

theorem reach_attended (hopen : c₀.client.opened = true) (hidle : c₀.client.executingCmd = false)
    (h : Reach (step t timeoutMs edit) (Heard t) (∃ uptime, · = uPortBgRxTaskCreate uptime c₀) s) :
    s.Attended := by
  refine (Reach.invariant (I := fun s => s.Attended ∧ s.uart.Reachable) ?_ ?_ h).1
  · rintro _ ⟨uptime, rfl⟩
    exact ⟨⟨hopen, hidle, fun _ => rfl, fun hne => absurd (contents_init _) hne⟩, .start ⟨uptime, rfl⟩⟩
  · intro s a s' hinv hok hs
    refine ⟨hinv.1.step hinv.2.inv hok hs, ?_⟩
    obtain heq | ⟨b, hstep⟩ := step_uart hs
    · rw [heq]
      exact hinv.2
    · exact .next hinv.2 trivial hstep

/-- No call is in progress while `rxTask` is not running. -/
theorem no_read {ok : RxSys ρ → RxAct → Prop}
    (h : Reach (step t timeoutMs edit) ok (∃ uptime, · = uPortBgRxTaskCreate uptime c₀) s)
    (htask : s.task = none) : s.uart.read = none := by
  have hinv := reach_inv (P := fun _ _ _ => True) trivial (fun _ _ _ _ _ _ _ _ _ => trivial) h
  rw [Inv, htask] at hinv
  exact hinv.1

theorem behind_read {ok : RxSys ρ → RxAct → Prop}
    (h : Reach (step t timeoutMs edit) ok (∃ uptime, · = uPortBgRxTaskCreate uptime c₀) s)
    (htask : s.task = some .behind) : s.uart.read = none := by
  have hinv := reach_inv (P := fun _ _ _ => True) trivial (fun _ _ _ _ _ _ _ _ _ => trivial) h
  rw [Inv, htask] at hinv
  obtain ⟨_, _, -, -, -, hin⟩ := hinv
  exact hin.1

/-- `rxTask` is behind its last read, and nobody else is going to look for the bytes in the ring buffer. -/
structure Deaf (s : RxSys ρ) : Prop where
  task : s.task = some .behind
  queued : s.queued = false
  read : s.uart.read = none
  reachable : s.uart.Reachable
  bytes : contents s.uart.rxRingBuf ≠ []

/-- No other step than the return of `rxTask` changes that: the signals are lost. -/
theorem Deaf.step {a : RxAct} (h : s.Deaf) (ha : a ≠ .finish) (hs : s.step t timeoutMs edit a = some s') :
    s'.Deaf := by
  cases a with
  | uart a =>
    obtain ⟨uart, queued, rfl, hstep, hcont⟩ := uartStep_cases hs
    have hqueued : queued = false := by
      by_cases hexit : a = .isrExit
      · subst hexit
        obtain ⟨_, -, ⟨-, heq⟩ | ⟨-, heq⟩⟩ := uartStep_exit hs
        · rw [uPortRxSignal, if_neg (by simp [workIsPending, h.task])] at heq
          exact (congrArg RxSys.queued heq).trans h.queued
        · exact (congrArg RxSys.queued heq).trans h.queued
      · obtain ⟨_, -, heq⟩ := uartStep_other hexit hs
        exact (congrArg RxSys.queued heq).trans h.queued
    refine ⟨h.task, hqueued, hcont.read_none h.read, .next h.reachable trivial hstep, fun hnil => h.bytes ?_⟩
    have hgrows := UartSys.step_contents h.reachable.inv h.read hstep
    rw [hnil] at hgrows
    exact List.prefix_nil.1 hgrows
  | start => simp [RxSys.step, h.task] at hs
  | request => simp [RxSys.step, h.task] at hs
  | result => simp [RxSys.step, h.read] at hs
  | finish => exact absurd rfl ha

theorem Deaf.run {as : List RxAct} (h : s.Deaf) (has : .finish ∉ as)
    (hrun : Transition.run (RxSys.step t timeoutMs edit) s as = some s') : s'.Deaf := by
  induction as generalizing s with
  | nil =>
    cases hrun
    exact h
  | cons a as ih =>
    obtain ⟨ha, has⟩ := not_or.1 (List.mem_cons.not.1 has)
    obtain ⟨s₁, hs, hrest⟩ := Option.bind_eq_some_iff.1 hrun
    exact ih (h.step (Ne.symm ha) hs) has hrest

theorem Deaf.leavesBytes (h : s.Deaf) (hisr : s.uart.isr = .out) : s.LeavesBytes t timeoutMs edit := by
  refine ⟨?_, fun as s₁ s₂ has hrun hfin => ?_⟩
  · obtain ⟨client, calls, hfin⟩ := exists_finish t edit s
    exact ⟨_, by rw [RxSys.step, if_pos ⟨hisr, h.task⟩, hfin]⟩
  · have hdeaf := h.run has hrun
    obtain ⟨hisr, -, hfin⟩ := step_finish hfin
    obtain ⟨client, calls, rfl, -⟩ := finish_cases hfin
    exact ⟨⟨rfl, hdeaf.queued, hisr⟩, hdeaf.bytes⟩

/-- At rest with nobody to look for bytes, there are none. -/
theorem Attended.empty (h : s.Attended) (hquiet : s.Quiet) : contents s.uart.rxRingBuf = [] := by
  obtain ⟨htask, hqueued, hisr⟩ := hquiet
  by_contra hne
  obtain ⟨ret, hr⟩ | hq | hn | hr := h.heard hne
  · rw [hisr] at hr
    cases hr
  · rw [hqueued] at hq
    cases hq
  · rw [htask] at hn
    cases hn
  · rw [htask] at hr
    cases hr

/-- `uartIsr` signals behind the last read of `rxTask`. -/
theorem Attended.exit_leaves (h : s.Attended) (huart : s.uart.Reachable)
    (hread : s.task = some .behind → s.uart.read = none) (hs : s.step t timeoutMs edit (.uart .isrExit) = some s')
    (hnot : ¬Heard t s (.uart .isrExit)) : s'.LeavesBytes t timeoutMs edit := by
  simp only [Heard, Classical.not_imp] at hnot
  obtain ⟨htask, hne⟩ := hnot
  have hdeaf : s.Deaf := ⟨htask, h.queued (by simp [htask]), hread htask, huart, hne⟩
  refine (hdeaf.step (a := .uart .isrExit) nofun hs).leavesBytes ?_
  obtain ⟨uart, hstep, ⟨-, rfl⟩ | ⟨-, rfl⟩⟩ := uartStep_exit hs
  · unfold uPortRxSignal
    split <;> exact (UartSys.step_isrExit hstep).1
  · exact (UartSys.step_isrExit hstep).1

/-- `handleRxData` returns. -/
theorem Attended.result_leaves (h : s.Attended) (huart : s.uart.Reachable)
    (hs : s.step t timeoutMs edit .result = some s') (hnot : ¬Heard t s .result) :
    s'.LeavesBytes t timeoutMs edit := by
  obtain ⟨htask, c, uart, hc, hstep, hisr, rfl, rfl⟩ := step_result hs
  obtain ⟨hret, hne⟩ : (s.client.rxStep t c.result).2 ≠ none ∧ contents s.uart.rxRingBuf ≠ [] := by
    simp only [Heard, hc, Option.some.injEq, forall_eq', Classical.not_imp] at hnot
    exact hnot
  refine Deaf.leavesBytes ⟨?_, h.queued (by simp [htask]), rfl, .next huart trivial hstep, hne⟩ hisr
  exact congrArg some (if_pos (Option.isSome_iff_ne_none.2 hret))

/-- **While every signal is heard** `rxTask` comes to rest only when it has fetched every byte, with the
interrupt enabled for the next; **and no other signal may be lost**: behind a step that does not meet the
condition `rxTask` leaves bytes behind when it returns, whatever happens before. -/
theorem rx_heard (hopen : c₀.client.opened = true) (hidle : c₀.client.executingCmd = false)
    (h : Reach (step t timeoutMs edit) (Heard t) (∃ uptime, · = uPortBgRxTaskCreate uptime c₀) s) :
    (s.Quiet → contents s.uart.rxRingBuf = [] ∧ s.uart.rxIrq = true) ∧
    ∀ a s', s.step t timeoutMs edit a = some s' → ¬Heard t s a → s'.LeavesBytes t timeoutMs edit := by
  have hatt := reach_attended hopen hidle h
  have huart := reach_uart h
  refine ⟨fun hquiet => ?_, fun a s' hs hnot => ?_⟩
  · have hempty := hatt.empty hquiet
    refine ⟨hempty, Bool.eq_true_of_not_eq_false fun hoff => ?_⟩
    obtain hlocked | hfull := (UartSys.rxIrq_off huart).1 hoff
    · exact UartSys.not_locked (no_read h hquiet.1) hlocked
    · rw [UartSys.Full, hempty] at hfull
      cases hfull
  · cases a with
    | uart a =>
      cases a with
      | isrExit => exact hatt.exit_leaves huart (behind_read h) hs hnot
      | _ => exact absurd trivial hnot
    | result => exact hatt.result_leaves huart hs hnot
    | start | request | finish => exact absurd trivial hnot

/-- The line again, with every signal heard. -/
def afterHeard : RxSys (ArrayRing UInt8) :=
  (runIf (fun s a => decide (Heard 0 s a)) (step 0 0 id) (uPortBgRxTaskCreate 0 opened)
    ((text "+A\r").map (.uart <| .arrive ·) ++ [.uart .isrEnter, .uart (.isrTurn 3), .uart .isrExit, .start] ++
      readByte ++ readByte ++ readByte ++ [.request, .uart .read, .result, .finish])).get (by decide +kernel)

theorem rx_heard_line :
    (afterHeard.Quiet → contents afterHeard.uart.rxRingBuf = [] ∧ afterHeard.uart.rxIrq = true) ∧
    ∀ a s', afterHeard.step 0 0 id a = some s' → ¬Heard 0 afterHeard a → s'.LeavesBytes 0 0 id := by
  have h : Reach (step 0 0 id) (Heard 0) (∃ uptime, · = uPortBgRxTaskCreate uptime opened) afterHeard :=
    Reach.runIf (.start ⟨0, rfl⟩) (fun _ _ h => of_decide_eq_true h) (Option.some_get _).symm
  exact rx_heard rfl rfl h

/-- **The end of reception**: once `rxTask` is at rest with the interrupt disabled, no byte is delivered any
more and the callback is not called, whatever arrives, as long as no command reads. -/
theorem stalled (h : Reach (step t timeoutMs edit) anyStep (∃ uptime, · = uPortBgRxTaskCreate uptime c₀) s)
    (hquiet : s.Quiet) (hoff : s.uart.rxIrq = false) {as : List RxAct}
    (hrun : run (step t timeoutMs edit) s as = some s') :
    s'.uart.delivered = s.uart.delivered ∧ s'.calls = s.calls := by
  let I : RxSys ρ → Prop := fun r => r.Quiet ∧ r.uart.rxIrq = false ∧ r.uart.read = none ∧
    r.uart.delivered = s.uart.delivered ∧ r.calls = s.calls
  have hreach : Reach (step t timeoutMs edit) anyStep (· = s) s' :=
    Reach.run (.start rfl) (fun _ _ _ => trivial) hrun
  have hkeep : I s' := Reach.invariant ?_ ?_ hreach
  · exact hkeep.2.2.2
  · rintro _ rfl
    exact ⟨hquiet, hoff, no_read h hquiet.1, rfl, rfl⟩
  · rintro r a r' ⟨⟨htask, hqueued, hisr⟩, hoff, hread, hsame⟩ - hs
    cases a with
    | uart a =>
      cases a with
      | arrive b =>
        cases hs
        exact ⟨⟨htask, hqueued, hisr⟩, hoff, hread, hsame⟩
      | tick ms =>
        cases hs
        exact ⟨⟨htask, hqueued, hisr⟩, hoff, hread, hsame⟩
      | isrEnter => simp [RxSys.step, uartStep, UartSys.step, hoff] at hs
      | isrTurn fifoRead => simp [RxSys.step, uartStep, UartSys.step, hisr] at hs
      | isrExit => simp [RxSys.step, uartStep, UartSys.step, hisr] at hs
      | call d l m => cases hs
      | read => simp [RxSys.step, uartStep, UartSys.step, hisr, hread] at hs
      | semTimeout => simp [RxSys.step, uartStep, UartSys.step, hread] at hs
    | start => simp [RxSys.step, hqueued] at hs
    | request => simp [RxSys.step, htask] at hs
    | result => simp [RxSys.step, hread] at hs
    | finish => simp [RxSys.step, htask] at hs

/-- While `rxTask` is behind its last read, more bytes come in than the ring buffer has room for. -/
def flooded : RxSys (ArrayRing UInt8) :=
  (run (step 0 0 id) (uPortBgRxTaskCreate 0 opened)
    ([.uart (.arrive 65), .uart .isrEnter, .uart (.isrTurn 1), .uart .isrExit, .start] ++ readByte ++
      [.request, .uart .read, .result] ++ List.replicate 129 (.uart (.arrive 66)) ++
      [.uart .isrEnter, .uart (.isrTurn 127), .uart (.isrTurn 1), .uart (.isrTurn 0), .uart .isrExit,
        .finish])).get (by decide +kernel)

theorem stalled_flooded : ∃ s' : RxSys (ArrayRing UInt8),
    run (step 0 0 id) flooded [.uart (.arrive 67), .uart (.tick 1000)] = some s' ∧
      s'.uart.delivered = flooded.uart.delivered ∧ s'.calls = flooded.calls := by
  have h : Reach (step 0 0 id) anyStep (∃ uptime, · = uPortBgRxTaskCreate uptime opened) flooded :=
    Reach.run (.start ⟨0, rfl⟩) (fun _ _ _ => trivial) (Option.some_get _).symm
  have hquiet : flooded.Quiet := ⟨by decide +kernel, by decide +kernel, by decide +kernel⟩
  have hrun : run (step 0 0 id) flooded [.uart (.arrive 67), .uart (.tick 1000)] = some _ := rfl
  exact ⟨_, hrun, stalled h hquiet (by decide +kernel) hrun⟩

end RxSys

end Zephyr
