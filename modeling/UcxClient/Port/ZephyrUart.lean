import UcxClient.Lib.CInt
import UcxClient.Lib.RingBuffer
import UcxClient.Lib.Transition

/-!
# The UART of the Zephyr port (`ports/uart/u_port_uart_zephyr.c`)

`uartIsr` moves the bytes that the device has received to a ring buffer, and `uPortUartRead` gets them
from there. `UartSys` runs the two with the device and the clock, a statement at a time: bytes come in
and time passes at any moment, the interrupt is taken between any two statements of a thread, and no
thread runs until `uartIsr` has returned. One call of `uPortUartRead` is in progress at a time, that of the
thread that holds `cmdMutex`. Zephyr's ring buffer is any `RingBuffer`.

In every run the bytes are delivered in the order of their arrival, each once
(`UartSys.reads_in_order`); the interrupt stays disabled only where there is something to read
(`UartSys.rxIrq_off`), and a reader waits only while there is nothing (`UartSys.suspended_empty`).
-/

open RingBuffer Transition

namespace Zephyr

/-- `U_RINGBUFFER_SIZE` -/
def ringBufferSize : Nat := 128

/-- `UINT32_MAX` -/
def uint32Max : Nat := 2 ^ 32 - 1

/-- `(int32_t)(k_uptime_get_32() - startTimeMs)` at a time; the code has the low 32 bits of both. -/
def timePassed (uptime startTimeMs : Nat) : Int :=
  toInt32 (((uptime % 2 ^ 32 : Nat) : Int) - ((startTimeMs % 2 ^ 32 : Nat) : Int))

theorem timePassed_of_lt {uptime startTimeMs : Nat} (h : startTimeMs ≤ uptime)
    (hlt : uptime < startTimeMs + 2 ^ 31) : timePassed uptime startTimeMs = uptime - startTimeMs := by
  rw [timePassed, toInt32_eq]
  omega

/-- Where `uartIsr` is. -/
inductive IsrPc where
  /-- it is not being executed -/
  | out
  /-- at the condition of the loop -/
  | loop (ret : Int) (signalRxWorker : Bool)
  deriving DecidableEq

/-- Where a call of `uPortUartRead` is. -/
inductive ReadPc where
  /-- at the condition of the loop -/
  | test
  | isEmpty
  | semTake
  /-- waiting in `k_sem_take`, until that time at most -/
  | suspended (deadline : Nat)
  | irqDisable
  | get
  | irqEnable
  | uptime
  /-- in the branch without a timeout -/
  | poll
  | ret
  deriving DecidableEq

/-- A call of `uPortUartRead` that has not returned. -/
structure ReadCall where
  /-- `pData` is not NULL -/
  hasData : Bool
  length : Nat
  timeoutMs : Int
  startTimeMs : Nat
  timePassedMs : Int
  /-- the first `bytesRead` bytes of `pData` -/
  got : List UInt8
  pc : ReadPc
  deriving DecidableEq

structure UartSys (ρ : Type) where
  uptime : Nat
  /-- the bytes that the device has received and not been asked for -/
  fifo : List UInt8
  rxIrq : Bool
  rxRingBuf : ρ
  rxSem : Bool
  isr : IsrPc
  read : Option ReadCall
  /-- all bytes that the device has received -/
  arrived : List UInt8
  /-- all bytes that calls of `uPortUartRead` have returned -/
  delivered : List UInt8

inductive UartAct where
  | arrive (b : UInt8)
  | tick (ms : Nat)
  | isrEnter
  /-- a turn of the loop, with the result of `uart_fifo_read` -/
  | isrTurn (fifoRead : Int)
  | isrExit
  | call (hasData : Bool) (length : Nat) (timeoutMs : Int)
  /-- the next statement of the call -/
  | read
  /-- the time of `k_sem_take` is up -/
  | semTimeout
  deriving DecidableEq

/-- `uPortUartRead` up to its first statement that other parts of the system can see. -/
def ReadCall.enter (hasData : Bool) (length : Nat) (timeoutMs : Int) (uptime : Nat) : ReadCall where
  hasData
  length
  timeoutMs
  startTimeMs := uptime
  timePassedMs := 0
  got := []
  pc := if length = 0 then .ret else if 0 < timeoutMs then .test else .poll

namespace UartSys

variable {ρ : Type} [RingBuffer ρ UInt8]

/-- Behind `uPortUartOpen`. -/
def uPortUartOpen (uptime : Nat) : UartSys ρ where
  uptime
  fifo := []
  rxIrq := true
  rxRingBuf := init ringBufferSize
  rxSem := false
  isr := .out
  read := none
  arrived := []
  delivered := []

/-- A turn of the loop of `uartIsr`. The driver reads from its FIFO at most what it is asked for. -/
def uartIsrTurn (s : UartSys ρ) (fifoRead : Int) : Option (UartSys ρ) :=
  let claimed := putClaim s.rxRingBuf uint32Max
  if claimed = 0 then
    some { s with rxIrq := false, rxRingBuf := putFinish s.rxRingBuf [], isr := .loop 0 true }
  else if fifoRead ≤ min claimed s.fifo.length then
    some { s with
      rxRingBuf := putFinish s.rxRingBuf (s.fifo.take fifoRead.toNat)
      fifo := s.fifo.drop fifoRead.toNat
      isr := .loop fifoRead true }
  else none

/-- `k_sem_give`: a waiting thread goes on, and the count is 1 at most. -/
def semGive (s : UartSys ρ) : UartSys ρ :=
  match s.read with
  | some c =>
    match c.pc with
    | .suspended _ => { s with read := some { c with pc := .uptime } }
    | _ => { s with rxSem := true }
  | none => { s with rxSem := true }

/-- `uartIsr` behind the loop, but for `uPortRxSignal`. -/
def uartIsrExit (s : UartSys ρ) (signalRxWorker : Bool) : UartSys ρ :=
  let s := { s with isr := .out }
  if signalRxWorker then s.semGive else s

/-- The next statement of a call of `uPortUartRead`. -/
def uPortUartRead (s : UartSys ρ) (c : ReadCall) : Option (UartSys ρ) :=
  match c.pc with
  | .test =>
    let pc := if (c.got.length : Int) < toInt32 c.length then .isEmpty else .ret
    some { s with read := some { c with pc } }
  | .isEmpty =>
    let pc :=
      if isEmpty s.rxRingBuf then if c.timeoutMs < c.timePassedMs then .ret else .semTake
      else if c.hasData then .irqDisable else .ret
    some { s with read := some { c with pc } }
  | .semTake =>
    let remainingMs := toInt32 (c.timeoutMs - c.timePassedMs)
    if s.rxSem then some { s with rxSem := false, read := some { c with pc := .uptime } }
    else if remainingMs ≤ 0 then some { s with read := some { c with pc := .uptime } }
    else some { s with read := some { c with pc := .suspended (s.uptime + remainingMs.toNat) } }
  | .suspended _ => none
  | .irqDisable => some { s with rxIrq := false, read := some { c with pc := .get } }
  | .get =>
    let (bytes, rxRingBuf) := get s.rxRingBuf (c.length - c.got.length)
    some { s with rxRingBuf, read := some { c with got := c.got ++ bytes, pc := .irqEnable } }
  | .irqEnable =>
    some { s with rxIrq := true, read := some { c with pc := if 0 < c.timeoutMs then .uptime else .ret } }
  | .uptime =>
    some { s with read := some { c with timePassedMs := timePassed s.uptime c.startTimeMs, pc := .test } }
  | .poll =>
    let pc := if !isEmpty s.rxRingBuf && c.hasData then .irqDisable else .ret
    some { s with read := some { c with pc } }
  | .ret => some { s with read := none, delivered := s.delivered ++ c.got }

def step (s : UartSys ρ) : UartAct → Option (UartSys ρ)
  | .arrive b => some { s with fifo := s.fifo ++ [b], arrived := s.arrived ++ [b] }
  | .tick ms => some { s with uptime := s.uptime + ms }
  | .isrEnter =>
    if s.isr = .out ∧ s.rxIrq = true ∧ s.fifo ≠ [] then some { s with isr := .loop 1 false } else none
  | .isrTurn fifoRead =>
    match s.isr with
    | .loop ret _ => if s.fifo ≠ [] ∧ 0 < ret then s.uartIsrTurn fifoRead else none
    | .out => none
  | .isrExit =>
    match s.isr with
    | .loop ret signalRxWorker =>
      if s.fifo ≠ [] ∧ 0 < ret then none else some (s.uartIsrExit signalRxWorker)
    | .out => none
  | .call hasData length timeoutMs =>
    if s.isr = .out ∧ s.read = none then
      some { s with read := some (.enter hasData length timeoutMs s.uptime) }
    else none
  | .read => if s.isr = .out then s.read.bind s.uPortUartRead else none
  | .semTimeout =>
    match s.read with
    | some c =>
      match c.pc with
      | .suspended deadline =>
        if s.isr = .out ∧ deadline ≤ s.uptime then some { s with read := some { c with pc := .uptime } }
        else none
      | _ => none
    | none => none

end UartSys

/-! ## The invariant -/

/-- The semaphore wakes the thread that waits for it, or is available afterwards. -/
theorem UartSys.semGive_cases {ρ : Type} (s : UartSys ρ) :
    s.semGive = { s with rxSem := true } ∧ (∀ c, s.read = some c → ∀ deadline, c.pc ≠ .suspended deadline) ∨
    ∃ c deadline, s.read = some c ∧ c.pc = .suspended deadline ∧
      s.semGive = { s with read := some { c with pc := .uptime } } := by
  unfold semGive
  cases hread : s.read with
  | none => exact .inl ⟨rfl, nofun⟩
  | some c =>
    cases hpc : c.pc with
    | suspended deadline => exact .inr ⟨c, deadline, rfl, hpc, by simp only [hpc]⟩
    | _ =>
      refine .inl ⟨by simp only [hpc], fun d hd deadline hd' => ?_⟩
      cases hd
      rw [hpc] at hd'
      cases hd'

/-- The call has a timeout and does not have all the bytes that it may return. -/
def ReadCall.Short (c : ReadCall) : Prop :=
  0 < c.timeoutMs ∧ c.hasData = true ∧ (c.got.length : Int) < toInt32 c.length

/-- The call last read the clock at some time. -/
def ReadCall.Timed (uptime : Nat) (c : ReadCall) : Prop :=
  ∃ now, c.startTimeMs ≤ now ∧ now ≤ uptime ∧ c.timePassedMs = timePassed now c.startTimeMs

theorem ReadCall.timed_enter (hasData : Bool) (length : Nat) (timeoutMs : Int) (uptime : Nat) :
    (enter hasData length timeoutMs uptime).Timed uptime := by
  refine ⟨uptime, Nat.le_refl _, Nat.le_refl _, ?_⟩
  show 0 = timePassed uptime uptime
  rw [timePassed, Int.sub_self]
  rfl

theorem ReadCall.Timed.mono {uptime uptime' : Nat} {c : ReadCall} (h : c.Timed uptime)
    (hle : uptime ≤ uptime') : c.Timed uptime' := by
  obtain ⟨now, h1, h2, h3⟩ := h
  exact ⟨now, h1, Nat.le_trans h2 hle, h3⟩

theorem ReadCall.Timed.goto {uptime : Nat} {c : ReadCall} (h : c.Timed uptime) (pc : ReadPc) :
    ReadCall.Timed uptime { c with pc } := by
  obtain ⟨now, h1, h2, h3⟩ := h
  exact ⟨now, h1, h2, h3⟩

namespace UartSys

variable {ρ : Type}

/-- The bytes that the call in progress has. -/
def got (s : UartSys ρ) : List UInt8 := (s.read.map (·.got)).getD []

theorem got_some {s : UartSys ρ} {c : ReadCall} (h : s.read = some c) : s.got = c.got := by
  unfold got
  rw [h]
  rfl

theorem got_none {s : UartSys ρ} (h : s.read = none) : s.got = [] := by
  unfold got
  rw [h]
  rfl

/-- `uartIsr` has put something and is going to give the semaphore. -/
def Giving (s : UartSys ρ) : Prop := ∃ ret, s.isr = .loop ret true

/-- The call is between `uart_irq_rx_disable` and `uart_irq_rx_enable`. -/
def Locked (s : UartSys ρ) : Prop := ∃ c, s.read = some c ∧ (c.pc = .get ∨ c.pc = .irqEnable)

theorem not_locked {s : UartSys ρ} (hread : s.read = none) : ¬s.Locked := by
  rintro ⟨c, hc, -⟩
  rw [hread] at hc
  cases hc

variable [RingBuffer ρ UInt8]

def Full (s : UartSys ρ) : Prop := (contents s.rxRingBuf).length = ringBufferSize

/-- What holds at the statement that the call is at. -/
def At (s : UartSys ρ) (c : ReadCall) : Prop :=
  match c.pc with
  | .semTake => contents s.rxRingBuf ≠ [] → s.rxSem = true ∨ s.Giving
  | .suspended _ => contents s.rxRingBuf ≠ [] → s.Giving
  | .get => s.rxIrq = false ∧ s.isr = .out
  | .irqEnable => s.rxIrq = false ∧ s.isr = .out
  | .poll => c.timeoutMs ≤ 0
  | .ret => c.Short → c.timeoutMs < c.timePassedMs
  | .test | .isEmpty | .irqDisable | .uptime => True

structure Inv (s : UartSys ρ) : Prop where
  conserved : s.delivered ++ s.got ++ contents s.rxRingBuf ++ s.fifo = s.arrived
  capacity : capacity s.rxRingBuf = ringBufferSize
  rxIrq : s.rxIrq = false → s.Locked ∨ s.Full
  call : ∀ c, s.read = some c → s.At c ∧ c.Timed s.uptime

section
variable {s s' : UartSys ρ} {c : ReadCall}

theorem inv_open (uptime : Nat) : (uPortUartOpen uptime : UartSys ρ).Inv where
  conserved := by simp [uPortUartOpen, got, contents_init]
  capacity := capacity_init ringBufferSize
  rxIrq := nofun
  call := nofun

/-- A statement that does nothing with the ring buffer and the interrupt. -/
theorem Inv.goto (h : s.Inv) (hc : s.read = some c) (hget : c.pc ≠ .get) (hen : c.pc ≠ .irqEnable)
    {b : Bool} {timePassedMs : Int} {pc : ReadPc}
    (hat : UartSys.At { s with rxSem := b, read := some { c with timePassedMs, pc } } { c with timePassedMs, pc })
    (ht : ReadCall.Timed s.uptime { c with timePassedMs, pc }) :
    UartSys.Inv { s with rxSem := b, read := some { c with timePassedMs, pc } } where
  conserved := by
    have := h.conserved
    rwa [got_some hc] at this
  capacity := h.capacity
  rxIrq := by
    intro hirq
    obtain ⟨d, hd, hpc⟩ | hfull := h.rxIrq hirq
    · rw [hc] at hd
      cases hd
      exact absurd hpc (not_or.2 ⟨hget, hen⟩)
    · exact .inr hfull
  call := by
    intro d hd
    cases hd
    exact ⟨hat, ht⟩

theorem at_enter (s : UartSys ρ) (hasData : Bool) (length : Nat) (timeoutMs : Int) (uptime : Nat) :
    s.At (.enter hasData length timeoutMs uptime) := by
  unfold At ReadCall.enter
  by_cases hlen : length = 0
  · rw [if_pos hlen]
    rintro ⟨-, -, hshort⟩
    rw [hlen, toInt32_eq] at hshort
    simp at hshort
  · rw [if_neg hlen]
    by_cases htime : 0 < timeoutMs
    · simp [htime]
    · simpa [htime] using Int.not_lt.1 htime

/-- **A statement of a call.** -/
theorem Inv.read (h : s.Inv) (hisr : s.isr = .out) (hc : s.read = some c)
    (hs : s.uPortUartRead c = some s') : s'.Inv := by
  obtain ⟨hat, htimed⟩ := h.call c hc
  unfold At at hat
  unfold uPortUartRead at hs
  cases hpc : c.pc with
  | test =>
    simp only [hpc, Option.some.injEq] at hs
    subst hs
    by_cases hlt : (c.got.length : Int) < toInt32 c.length
    · rw [if_pos hlt]
      exact h.goto hc (by simp [hpc]) (by simp [hpc]) trivial (htimed.goto _)
    · rw [if_neg hlt]
      exact h.goto hc (by simp [hpc]) (by simp [hpc]) (fun hshort => absurd hshort.2.2 hlt) (htimed.goto _)
  | isEmpty =>
    simp only [hpc, Option.some.injEq] at hs
    subst hs
    refine h.goto hc (by simp [hpc]) (by simp [hpc]) ?_ (htimed.goto _)
    by_cases hempty : isEmpty s.rxRingBuf = true
    · by_cases hlt : c.timeoutMs < c.timePassedMs
      · simp [At, hempty, hlt]
      · simp [At, hempty, hlt, (isEmpty_iff _).1 hempty]
    · by_cases hdata : c.hasData = true
      · simp [At, hempty, hdata]
      · simp [At, hempty, hdata, ReadCall.Short]
  | semTake =>
    simp only [hpc] at hs hat
    split at hs
    · cases hs
      exact h.goto hc (by simp [hpc]) (by simp [hpc]) trivial (htimed.goto _)
    · next hsem =>
      split at hs
      · cases hs
        exact h.goto hc (by simp [hpc]) (by simp [hpc]) trivial (htimed.goto _)
      · cases hs
        refine h.goto hc (by simp [hpc]) (by simp [hpc]) ?_ (htimed.goto _)
        intro hne
        exact (hat hne).resolve_left hsem
  | suspended deadline =>
    simp only [hpc] at hs
    cases hs
  | irqDisable =>
    simp only [hpc, Option.some.injEq] at hs hat
    subst hs
    exact {
      conserved := by
        have := h.conserved
        rwa [got_some hc] at this
      capacity := h.capacity
      rxIrq := fun _ => .inl ⟨_, rfl, .inl rfl⟩
      call := by
        intro d hd
        cases hd
        exact ⟨⟨rfl, hisr⟩, htimed⟩ }
  | get =>
    simp only [hpc, Option.some.injEq] at hs hat
    subst hs
    exact {
      conserved := by
        have := h.conserved
        rw [got_some hc, ← get_append s.rxRingBuf (c.length - c.got.length)] at this
        simpa only [UartSys.got, Option.map_some, Option.getD_some, List.append_assoc] using this
      capacity := (capacity_get _ _).trans h.capacity
      rxIrq := fun _ => .inl ⟨_, rfl, .inr rfl⟩
      call := by
        intro d hd
        cases hd
        exact ⟨hat, htimed⟩ }
  | irqEnable =>
    simp only [hpc, Option.some.injEq] at hs
    subst hs
    exact {
      conserved := by
        have := h.conserved
        rwa [got_some hc] at this
      capacity := h.capacity
      rxIrq := nofun
      call := by
        intro d hd
        cases hd
        refine ⟨?_, htimed⟩
        by_cases htime : 0 < c.timeoutMs
        · simp [At, htime]
        · simp [At, htime, ReadCall.Short] }
  | uptime =>
    simp only [hpc, Option.some.injEq] at hs
    subst hs
    refine h.goto hc (by simp [hpc]) (by simp [hpc]) trivial ?_
    obtain ⟨now, h1, h2, -⟩ := htimed
    exact ⟨s.uptime, Nat.le_trans h1 h2, Nat.le_refl _, rfl⟩
  | poll =>
    simp only [hpc, Option.some.injEq] at hs hat
    subst hs
    refine h.goto hc (by simp [hpc]) (by simp [hpc]) ?_ (htimed.goto _)
    by_cases hcond : (!isEmpty s.rxRingBuf && c.hasData) = true
    · rw [Bool.and_eq_true, Bool.not_eq_true'] at hcond
      simp [At, hcond.1, hcond.2]
    · simp only [At, hcond]
      intro hshort
      exact absurd hshort.1 (Int.not_lt.2 hat)
  | ret =>
    simp only [hpc, Option.some.injEq] at hs
    subst hs
    exact {
      conserved := by
        have := h.conserved
        rw [got_some hc] at this
        simpa only [UartSys.got, Option.map_none, Option.getD_none, List.append_nil] using this
      capacity := h.capacity
      rxIrq := by
        intro hirq
        obtain ⟨d, hd, hlocked⟩ | hfull := h.rxIrq hirq
        · rw [hc] at hd
          cases hd
          rw [hpc] at hlocked
          obtain hl | hl := hlocked <;> cases hl
        · exact .inr hfull
      call := nofun }

/-- A turn of the loop of `uartIsr` puts bytes of the device, or disables the interrupt. -/
theorem uartIsrTurn_cases {fifoRead : Int} (hcap : capacity s.rxRingBuf = ringBufferSize)
    (hs : s.uartIsrTurn fifoRead = some s') :
    ∃ k, k ≤ s.fifo.length ∧ contents s'.rxRingBuf = contents s.rxRingBuf ++ s.fifo.take k ∧
      s' = { s with
        rxIrq := s'.rxIrq, rxRingBuf := s'.rxRingBuf, fifo := s.fifo.drop k, isr := s'.isr } ∧
      capacity s'.rxRingBuf = ringBufferSize ∧ s'.Giving ∧
      (s'.rxIrq = s.rxIrq ∧ ¬s.Full ∨ s'.Full) := by
  unfold uartIsrTurn at hs
  simp only at hs
  split at hs
  · next hfull =>
    cases hs
    refine ⟨0, Nat.zero_le _, by simp [contents_putFinish_nil], by simp, ?_, ⟨_, rfl⟩, .inr ?_⟩
    · exact (capacity_putFinish _ _).trans hcap
    · have := full_of_putClaim (by decide) hfull
      simpa [Full, contents_putFinish_nil, hcap] using this
  · next hclaim =>
    split at hs
    · next hle =>
      cases hs
      have hk : fifoRead.toNat ≤ min (putClaim s.rxRingBuf uint32Max) s.fifo.length := by omega
      refine ⟨fifoRead.toNat, by omega, ?_, rfl, (capacity_putFinish _ _).trans hcap, ⟨_, rfl⟩, .inl ⟨rfl, ?_⟩⟩
      · exact contents_putFinish _ uint32Max _ (Nat.le_trans (List.length_take_le _ _) (by omega))
      · have := putClaim_room s.rxRingBuf uint32Max
        unfold Full
        omega
    · cases hs

theorem Inv.isrTurn (h : s.Inv) {ret fifoRead : Int} {signalRxWorker : Bool}
    (hisr : s.isr = .loop ret signalRxWorker) (hs : s.uartIsrTurn fifoRead = some s') : s'.Inv := by
  obtain ⟨k, hk, hput, heq, hcap, hgive, hirq⟩ := uartIsrTurn_cases h.capacity hs
  have hread : s'.read = s.read := by rw [heq]
  exact {
    conserved := by
      have hgot : s'.got = s.got := by unfold UartSys.got; rw [hread]
      have hfifo : s'.fifo = s.fifo.drop k := by rw [heq]
      have hdel : s'.delivered = s.delivered := by rw [heq]
      have harr : s'.arrived = s.arrived := by rw [heq]
      rw [hgot, hput, hfifo, hdel, harr, List.append_assoc, List.append_assoc, List.append_assoc,
        List.take_append_drop, ← List.append_assoc, ← List.append_assoc]
      exact h.conserved
    capacity := hcap
    rxIrq := by
      intro hoff
      obtain ⟨hsame, hnot⟩ | hfull := hirq
      · obtain ⟨c, hc, hpc⟩ | hfull := h.rxIrq (hsame ▸ hoff)
        · exact .inl ⟨c, hread.trans hc, hpc⟩
        · exact absurd hfull hnot
      · exact .inr hfull
    call := by
      intro c hc
      obtain ⟨hat, htimed⟩ := h.call c (hread ▸ hc)
      refine ⟨?_, by rw [heq]; exact htimed⟩
      unfold At at hat ⊢
      cases hpc : c.pc with
      | semTake => exact fun _ => .inr hgive
      | suspended deadline => exact fun _ => hgive
      | get =>
        simp only [hpc] at hat
        rw [hisr] at hat
        cases hat.2
      | irqEnable =>
        simp only [hpc] at hat
        rw [hisr] at hat
        cases hat.2
      | poll => simpa only [hpc] using hat
      | ret => simpa only [hpc] using hat
      | test => trivial
      | isEmpty => trivial
      | irqDisable => trivial
      | uptime => trivial }

theorem Inv.isrEnter (h : s.Inv) (hisr : s.isr = .out) (hirq : s.rxIrq = true) :
    UartSys.Inv { s with isr := .loop 1 false } where
  conserved := h.conserved
  capacity := h.capacity
  rxIrq := h.rxIrq
  call := by
    intro c hc
    obtain ⟨hat, htimed⟩ := h.call c hc
    refine ⟨?_, htimed⟩
    have hgiving : ¬s.Giving := by
      rintro ⟨ret, hr⟩
      rw [hisr] at hr
      cases hr
    unfold At at hat ⊢
    cases hpc : c.pc with
    | semTake =>
      simp only [hpc] at hat
      exact fun hne => .inl ((hat hne).resolve_right hgiving)
    | suspended deadline =>
      simp only [hpc] at hat
      exact fun hne => absurd (hat hne) hgiving
    | get =>
      simp only [hpc, hirq] at hat
      cases hat.1
    | irqEnable =>
      simp only [hpc, hirq] at hat
      cases hat.1
    | poll => simpa only [hpc] using hat
    | ret => simpa only [hpc] using hat
    | test => trivial
    | isEmpty => trivial
    | irqDisable => trivial
    | uptime => trivial

/-- The semaphore has been given, or there was nothing to give it for. -/
theorem Inv.isrOut (h : s.Inv) {ret : Int} {signalRxWorker : Bool}
    (hisr : s.isr = .loop ret signalRxWorker) {b : Bool}
    (hsem : signalRxWorker = true → ∀ c, s.read = some c → c.pc = .semTake → b = true)
    (hkeep : s.rxSem = true → b = true)
    (hwoken : signalRxWorker = true → ∀ c, s.read = some c → ∀ deadline, c.pc ≠ .suspended deadline) :
    UartSys.Inv { s with isr := .out, rxSem := b } where
  conserved := h.conserved
  capacity := h.capacity
  rxIrq := h.rxIrq
  call := by
    intro c hc
    obtain ⟨hat, htimed⟩ := h.call c hc
    refine ⟨?_, htimed⟩
    have hsignal : s.Giving → signalRxWorker = true := by
      rintro ⟨_, hr⟩
      rw [hisr] at hr
      cases hr
      rfl
    unfold At at hat ⊢
    cases hpc : c.pc with
    | semTake =>
      simp only [hpc] at hat
      exact fun hne => .inl ((hat hne).elim hkeep fun hg => hsem (hsignal hg) c hc hpc)
    | suspended deadline =>
      simp only [hpc] at hat
      exact fun hne => absurd hpc (hwoken (hsignal (hat hne)) c hc deadline)
    | get =>
      simp only [hpc] at hat
      exact ⟨hat.1, rfl⟩
    | irqEnable =>
      simp only [hpc] at hat
      exact ⟨hat.1, rfl⟩
    | poll => simpa only [hpc] using hat
    | ret => simpa only [hpc] using hat
    | test => trivial
    | isEmpty => trivial
    | irqDisable => trivial
    | uptime => trivial

theorem Inv.isrExit (h : s.Inv) {ret : Int} {signalRxWorker : Bool}
    (hisr : s.isr = .loop ret signalRxWorker) : (s.uartIsrExit signalRxWorker).Inv := by
  unfold uartIsrExit
  cases signalRxWorker with
  | false => exact h.isrOut hisr (by simp) id (by simp)
  | true =>
    simp only [if_true]
    obtain ⟨heq, hnot⟩ | ⟨c, deadline, hc, hpc, heq⟩ := UartSys.semGive_cases { s with isr := .out }
    · rw [heq]
      exact h.isrOut hisr (b := true) (fun _ _ _ _ => rfl) (fun _ => rfl) fun _ => hnot
    · rw [heq]
      have htimed : ReadCall.Timed s.uptime { c with pc := .uptime } := (h.call c hc).2.goto _
      have hwoken : UartSys.Inv { s with read := some { c with pc := .uptime } } :=
        h.goto (b := s.rxSem) hc (by simp [hpc]) (by simp [hpc]) trivial htimed
      exact hwoken.isrOut hisr (b := s.rxSem)
        (fun _ d hd hsem => by
          cases hd
          cases hsem)
        id fun _ d hd deadline => by
          cases hd
          simp

theorem Inv.step (h : s.Inv) {a : UartAct} (hs : s.step a = some s') : s'.Inv := by
  cases a with
  | arrive b =>
    cases hs
    exact {
      conserved := by
        have := h.conserved
        simp only [UartSys.got] at this ⊢
        rw [← List.append_assoc, this]
      capacity := h.capacity
      rxIrq := h.rxIrq
      call := h.call }
  | tick ms =>
    cases hs
    exact {
      conserved := h.conserved
      capacity := h.capacity
      rxIrq := h.rxIrq
      call := fun c hc => ⟨(h.call c hc).1, (h.call c hc).2.mono (Nat.le_add_right _ _)⟩ }
  | isrEnter =>
    simp only [UartSys.step] at hs
    split at hs
    · next hin =>
      cases hs
      exact h.isrEnter hin.1 hin.2.1
    · cases hs
  | isrTurn fifoRead =>
    simp only [UartSys.step] at hs
    split at hs
    · next hisr =>
      split at hs
      · exact h.isrTurn hisr hs
      · cases hs
    · cases hs
  | isrExit =>
    simp only [UartSys.step] at hs
    split at hs
    · next hisr =>
      split at hs
      · cases hs
      · cases hs
        exact h.isrExit hisr
    · cases hs
  | call hasData length timeoutMs =>
    simp only [UartSys.step] at hs
    split at hs
    · next hfree =>
      cases hs
      exact {
        conserved := by
          have := h.conserved
          rwa [got_none hfree.2] at this
        capacity := h.capacity
        rxIrq := fun hoff => .inr ((h.rxIrq hoff).resolve_left (not_locked hfree.2))
        call := by
          intro c hc
          cases hc
          exact ⟨at_enter _ _ _ _ _, ReadCall.timed_enter _ _ _ _⟩ }
    · cases hs
  | read =>
    simp only [UartSys.step] at hs
    split at hs
    · next hisr =>
      obtain ⟨c, hc, hstep⟩ := Option.bind_eq_some_iff.1 hs
      exact h.read hisr hc hstep
    · cases hs
  | semTimeout =>
    simp only [UartSys.step] at hs
    split at hs
    · next c hc =>
      split at hs
      · next deadline hpc =>
        split at hs
        · cases hs
          exact h.goto hc (by simp [hpc]) (by simp [hpc]) trivial ((h.call c hc).2.goto _)
        · cases hs
      · cases hs
    · cases hs

end

/-! ## Every run -/

/-- The states that the UART can be in. -/
def Reachable (s : UartSys ρ) : Prop := Reach step anyStep (∃ uptime, · = uPortUartOpen uptime) s

section
variable {s : UartSys ρ}

theorem Reachable.inv (h : s.Reachable) : s.Inv :=
  Reach.invariant (by rintro _ ⟨uptime, rfl⟩; exact inv_open uptime) (fun _ _ _ h _ hs => h.step hs) h

/-- **The bytes are delivered in the order of their arrival, each once**, and the ring buffer never holds
more than fit in. -/
theorem reads_in_order (h : s.Reachable) :
    s.delivered ++ s.got ++ contents s.rxRingBuf ++ s.fifo = s.arrived ∧
      (contents s.rxRingBuf).length ≤ ringBufferSize :=
  ⟨h.inv.conserved, h.inv.capacity ▸ length_contents_le _⟩

/-- A call that has two of the three bytes that it waits for. -/
def waiting : UartSys (ArrayRing UInt8) :=
  (run step (uPortUartOpen 0) [.call true 3 100, .read, .read, .read, .arrive 1, .arrive 2, .isrEnter,
    .isrTurn 2, .isrExit, .read, .read, .read, .read, .read, .read, .read, .read, .read, .read]).get
      (by decide +kernel)

theorem reachable_waiting : waiting.Reachable :=
  Reach.run (.start ⟨0, rfl⟩) (fun _ _ _ => trivial) (Option.some_get _).symm

theorem reads_in_order_waiting :
    waiting.delivered ++ waiting.got ++ contents waiting.rxRingBuf ++ waiting.fifo = waiting.arrived ∧
      (contents waiting.rxRingBuf).length ≤ ringBufferSize :=
  reads_in_order reachable_waiting

/-- **The interrupt is disabled** only between the two statements of a call, or while the ring buffer is
full; and `uartIsr` never runs between the two. -/
theorem rxIrq_off (h : s.Reachable) :
    (s.rxIrq = false → s.Locked ∨ s.Full) ∧ (s.Locked → s.rxIrq = false ∧ s.isr = .out) := by
  refine ⟨h.inv.rxIrq, ?_⟩
  rintro ⟨c, hc, hpc⟩
  have hat := (h.inv.call c hc).1
  unfold At at hat
  obtain hpc | hpc := hpc
  · simpa only [hpc] using hat
  · simpa only [hpc] using hat

theorem rxIrq_off_waiting : (waiting.rxIrq = false → waiting.Locked ∨ waiting.Full) ∧
    (waiting.Locked → waiting.rxIrq = false ∧ waiting.isr = .out) :=
  rxIrq_off reachable_waiting

/-- **No wake-up is lost**: a thread waits in `k_sem_take` only while the ring buffer is empty and the
interrupt is enabled, so that `uartIsr` runs for the next byte. -/
theorem suspended_empty (h : s.Reachable) {c : ReadCall} (hc : s.read = some c) {deadline : Nat}
    (hpc : c.pc = .suspended deadline) (hisr : s.isr = .out) :
    contents s.rxRingBuf = [] ∧ s.rxIrq = true := by
  have hat := (h.inv.call c hc).1
  simp only [At, hpc] at hat
  have hempty : contents s.rxRingBuf = [] := by
    by_contra hne
    obtain ⟨ret, hr⟩ := hat hne
    rw [hisr] at hr
    cases hr
  refine ⟨hempty, Bool.eq_true_of_not_eq_false fun hoff => ?_⟩
  obtain ⟨d, hd, hlocked⟩ | hfull := h.inv.rxIrq hoff
  · rw [hc] at hd
    cases hd
    rw [hpc] at hlocked
    obtain hl | hl := hlocked <;> cases hl
  · rw [Full, hempty] at hfull
    cases hfull

theorem suspended_empty_waiting : contents waiting.rxRingBuf = [] ∧ waiting.rxIrq = true :=
  suspended_empty reachable_waiting (c := ⟨true, 3, 100, 0, 0, [1, 2], .suspended 100⟩) (by decide +kernel) rfl
    (by decide +kernel)

/-- The same call when its time is up. -/
def timedOut : UartSys (ArrayRing UInt8) :=
  (run step waiting [.tick 101, .semTimeout, .read, .read, .read]).get (by decide +kernel)

end

end UartSys

end Zephyr
