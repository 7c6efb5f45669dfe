import UcxClient.Queue.Assertions
import UcxClient.Client.RxFacts

/-!
# What a read does to the URC queue

`Linked s qs a`: the queue of the client is that of `qs`, whose entries are `a`, and an enqueue is open
exactly while the payload of a URC is received, which then goes into the space reserved for it. A read
keeps this and appends to `a` the URC that it completes, if any (`Linked.read`).
-/

open ByteMem UrcQueue QueueSys

namespace UrcQueue

/-- The URC whose enqueue has ended between `q` and `q'`. -/
def queued (q q' : UrcQueue) : Option Urc :=
  if q.committed < q'.committed then some (q'.entryAt q.committed) else none

theorem queued_congr {q q1 : UrcQueue} (h : q1.committed = q.committed) (q' : UrcQueue) :
    queued q1 q' = queued q q' := by
  rw [queued, queued, h]

theorem queued_none {q q' : UrcQueue} (h : q'.committed = q.committed) : queued q q' = none := by
  rw [queued, if_neg (by omega)]

end UrcQueue

/-- The abstract queue after URCs have been queued. -/
def Fifo.State.push (a : Fifo.State Urc) (us : Option Urc) : Fifo.State Urc :=
  { a with items := a.items ++ us.toList }

theorem Fifo.State.push_none (a : Fifo.State Urc) : a.push none = a := by
  simp [Fifo.State.push]

namespace AtState

open AtClient

/-- The length that the length bytes announce. -/
def announced (s : AtState) : Nat := s.lengthBuf.1.toNat * 256 + s.lengthBuf.2.toNat

/-- The record of the payload of a URC. -/
structure OpenUrc (s : AtState) (qs : QueueSys) : Prop where
  enq : qs.enq ≠ none
  pBuffer : s.client.binaryRx.pBuffer = .urcBuffer qs.payloadPtr
  bufferSize : s.client.binaryRx.bufferSize = qs.space
  received : s.client.binaryRx.bufferPos + s.client.binaryRx.remainingDataBytes = s.announced
  room : s.announced < qs.space

structure Linked (s : AtState) (qs : QueueSys) (a : Fifo.State Urc) : Prop where
  tracks : Tracks s.client.urcQueue qs a
  closed : ¬s.client.Receiving .urc → qs.enq = none
  payload : s.client.Receiving .urc → OpenUrc s qs

/-- The payload of a response does not go into the URC buffer. -/
def RspApart (c : AtClient) : Prop := c.Receiving .rsp → ∀ off, c.binaryRx.pBuffer ≠ .urcBuffer off

/-- A URC line that the read completes and the queue accepts has a length that is a `uint16_t`. -/
def ShortUrc (s : AtState) (r : ReadStatus) : Prop :=
  s.LineEnds r → s.client.bufferedKind = .urc →
    s.client.urcQueue.hasSpaceFor s.client.rxBuffer.length = true → s.client.rxBuffer.length < 65536

section
variable {t : Nat} {s s' : AtState} {qs : QueueSys} {a : Fifo.State Urc}

theorem not_receiving {c : AtClient} {st : BinaryState} (h : c.isBinaryRx = false) :
    ¬c.Receiving st := by
  intro hr
  rw [hr.1] at h
  cases h

/-- The end of a transfer queues its URC. -/
theorem binaryRxDone_linked (t : Nat) (htr : Tracks s.client.urcQueue qs a)
    (hurc : s.client.binaryRx.state = .urc → OpenUrc s qs)
    (hother : s.client.binaryRx.state ≠ .urc → qs.enq = none) :
    ∃ qs', Linked (s.binaryRxDone t).1 qs'
      (a.push (queued s.client.urcQueue (s.binaryRxDone t).1.client.urcQueue)) ∧ SameDeq qs qs' := by
  have hnr : ¬(s.binaryRxDone t).1.client.Receiving .urc := not_receiving (s.binaryRxDone_client t).1
  by_cases hst : s.client.binaryRx.state = .urc
  · have ho := hurc hst
    have hle : s.client.binaryRx.bufferPos ≤ qs.space := by
      have h1 := ho.received
      have h2 := ho.room
      omega
    obtain ⟨qs', u, htr', hsd, henq, hlt, hu⟩ := htr.enqueueEnd ho.enq t hle
    have hq : (s.binaryRxDone t).1.client.urcQueue =
        uCxAtUrcQueueEnqueueEnd t s.client.urcQueue s.client.binaryRx.bufferPos := by
      simp only [binaryRxDone, hst]
    refine ⟨qs', ⟨?_, fun _ => henq, fun hr => absurd hr hnr⟩, hsd⟩
    rw [hq, queued, if_pos hlt, hu]
    exact htr'
  · have hq : (s.binaryRxDone t).1.client.urcQueue = s.client.urcQueue := by
      simp only [binaryRxDone]
      split
      · rfl
      · next h => exact absurd h hst
      · rfl
    refine ⟨qs, ⟨?_, fun _ => hother hst, fun hr => absurd hr hnr⟩, ⟨rfl, rfl⟩⟩
    rw [hq, queued_none rfl, Fifo.State.push_none]
    exact htr

/-- The head of the payload loop. -/
theorem binaryRxNext_linked (t : Nat) (htr : Tracks s.client.urcQueue qs a)
    (hbin : s.client.isBinaryRx = true) (hc : 2 ≤ s.client.binaryRx.rxHeaderCount)
    (hurc : s.client.binaryRx.state = .urc → OpenUrc s qs)
    (hother : s.client.binaryRx.state ≠ .urc → qs.enq = none) :
    ∃ qs', Linked (s.binaryRxNext t).1 qs'
      (a.push (queued s.client.urcQueue (s.binaryRxNext t).1.client.urcQueue)) ∧ SameDeq qs qs' := by
  rcases s.binaryRxNext_cases t with ⟨-, heq⟩ | ⟨-, heq⟩
  · rw [heq]
    refine ⟨qs, ⟨?_, fun hn => hother fun hst => hn ⟨hbin, hc, hst⟩, fun hr => hurc hr.2.2⟩,
      ⟨rfl, rfl⟩⟩
    rw [queued_none rfl, Fifo.State.push_none]
    exact htr
  · rw [heq]
    exact binaryRxDone_linked t htr hurc hother

/-- What parsing a line does to the queue: an enqueue is open afterwards exactly if it is a URC. -/
theorem parseLine_linked {c c' : AtClient} {pLine : List UInt8} {ret : ParserCode}
    (hp : c.parseLine t pLine = (c', ret)) (htr : Tracks c.urcQueue qs a) (hn : qs.enq = none)
    (hshort : lineKind c.executingCmd c.pExpectedRsp pLine = .urc →
      c.urcQueue.hasSpaceFor pLine.length = true → pLine.length < 65536) :
    ∃ qs', Tracks c'.urcQueue qs' a ∧ SameDeq qs qs' ∧ (qs'.enq ≠ none ↔ ret = .gotUrc) ∧
      c'.urcQueue.committed = c.urcQueue.committed := by
  have hentry : c.urcQueue.pEnqueueEntry = none := by
    rw [htr.data.pEnqueueEntry]
    exact htr.rep.pEnqueueEntry_none hn
  rw [parseLine_eq] at hp
  cases hk : lineKind c.executingCmd c.pExpectedRsp pLine with
  | status v =>
    rw [hk] at hp
    cases hp
    exact ⟨qs, htr, ⟨rfl, rfl⟩, by simp [hn], rfl⟩
  | rsp p =>
    rw [hk] at hp
    cases hp
    exact ⟨qs, htr, ⟨rfl, rfl⟩, by simp [hn], rfl⟩
  | other =>
    rw [hk] at hp
    cases hp
    exact ⟨qs, htr, ⟨rfl, rfl⟩, by simp [hn], rfl⟩
  | urc =>
    rw [hk] at hp
    obtain ⟨rfl, rfl⟩ := Prod.mk.inj hp
    obtain ⟨qs', htr', hsd, henq⟩ := htr.enqueueBegin hn t (hshort hk)
    refine ⟨qs', htr', hsd, ?_, committed_enqueueBegin t pLine hentry⟩
    rw [henq]
    cases (uCxAtUrcQueueEnqueueBegin t c.urcQueue pLine).1 <;> simp

theorem Linked.line (h : Linked s qs a) {b : UInt8} {c : AtClient} {ret : ParserCode}
    (hbin : s.client.isBinaryRx = false) (heol : isEol b = true)
    (hp : s.client.parseLine t s.client.rxBuffer = (c, ret)) (hshort : ShortUrc s (.got [b])) :
    ∃ qs', Linked { s with client := c.lineDone t ret } qs'
      (a.push (queued s.client.urcQueue (c.lineDone t ret).urcQueue)) ∧ SameDeq qs qs' := by
  have hends : s.LineEnds (.got [b]) := by simp [LineEnds, hbin, heol]
  obtain ⟨qs1, htr1, hsd1, hiff, hcom⟩ :=
    parseLine_linked hp h.tracks (h.closed (not_receiving hbin)) (hshort hends)
  obtain ⟨-, hb, -⟩ := parseLine_setup hp
  have hnr : ¬(c.lineDone t ret).Receiving .urc := not_receiving (by simp [hb, hbin])
  by_cases hu : ret = .gotUrc
  · obtain ⟨qs2, u, htr2, hsd2, henq, hlt, heu⟩ := htr1.enqueueEnd (hiff.2 hu) t (Nat.zero_le _)
    have hq : (c.lineDone t ret).urcQueue = uCxAtUrcQueueEnqueueEnd t c.urcQueue 0 := by
      rw [lineDone, if_pos hu]
    refine ⟨qs2, ⟨?_, fun _ => henq, fun hr => absurd hr hnr⟩,
      ⟨hsd2.deq.trans hsd1.deq, hsd2.dequeueMutex.trans hsd1.dequeueMutex⟩⟩
    rw [hq, queued, ← hcom, if_pos hlt, heu]
    exact htr2
  · have hq : (c.lineDone t ret).urcQueue = c.urcQueue := by rw [lineDone, if_neg hu]
    have henq : qs1.enq = none := Classical.byContradiction fun hne => hu (hiff.1 hne)
    refine ⟨qs1, ⟨?_, fun _ => henq, fun hr => absurd hr hnr⟩, hsd1⟩
    rw [hq, queued_none hcom, Fifo.State.push_none]
    exact htr1

/-- The space of a URC with a payload is set up behind its line. -/
theorem setupBinaryTransfer_linked {ret : ParserCode} (n : Nat) (hn : s.announced = n)
    (htr : Tracks s.client.urcQueue qs a) (hiff : qs.enq ≠ none ↔ ret = .gotUrc) :
    ∃ qs', Tracks (setupBinaryTransfer t s ret n).client.urcQueue qs' a ∧ SameDeq qs qs' ∧
      ((setupBinaryTransfer t s ret n).client.binaryRx.state = .urc →
        OpenUrc (setupBinaryTransfer t s ret n) qs') ∧
      ((setupBinaryTransfer t s ret n).client.binaryRx.state ≠ .urc → qs'.enq = none) ∧
      (setupBinaryTransfer t s ret n).client.urcQueue.committed = s.client.urcQueue.committed := by
  have closed : ret ≠ .gotUrc → qs.enq = none := fun hne =>
    Classical.byContradiction fun he => hne (hiff.1 he)
  cases ret with
  | gotUrc =>
    have hopen : qs.enq ≠ none := hiff.2 rfl
    have hptr : uCxAtUrcQueueEnqueueGetPayloadPtr s.client.urcQueue = (qs.payloadPtr, qs.space) :=
      htr.data.payloadPtr
    by_cases hlt : n < qs.space
    · refine ⟨qs, ?_, ⟨rfl, rfl⟩, ?_, ?_, ?_⟩ <;>
        simp only [setupBinaryTransfer, hptr, hlt, ↓reduceIte, setupBinaryRxBuffer]
      · exact htr
      · intro _
        refine ⟨hopen, rfl, rfl, ?_, ?_⟩
        · show 0 + n = s.announced
          omega
        · show s.announced < qs.space
          omega
      · exact fun h => absurd rfl h
    · obtain ⟨qs', htr', hsd, henq⟩ := htr.enqueueAbort hopen t
      have hentry : s.client.urcQueue.pEnqueueEntry ≠ none := by
        obtain ⟨line, hl⟩ := Option.ne_none_iff_exists'.1 hopen
        obtain ⟨used, free, -, -, -, hp⟩ := htr.rep.layout
        rw [htr.data.pEnqueueEntry, hp, hl]
        rintro ⟨⟩
      refine ⟨qs', ?_, hsd, ?_, fun _ => henq, ?_⟩ <;>
        simp only [setupBinaryTransfer, hptr, hlt, ↓reduceIte, setupBinaryRxBuffer]
      · exact htr'
      · rintro ⟨⟩
      · exact committed_enqueueAbort t hentry
  | _ => exact ⟨qs, htr, ⟨rfl, rfl⟩, by rintro ⟨⟩, fun _ => closed (by rintro ⟨⟩), rfl⟩

theorem Linked.start (h : Linked s qs a) {bytes : List UInt8}
    (hbin : s.client.isBinaryRx = true) (hcount : s.client.binaryRx.rxHeaderCount < 2)
    (hge : 2 ≤ s.client.binaryRx.rxHeaderCount + bytes.length)
    (hshort : ShortUrc s (.got bytes)) :
    ∃ qs', Linked ((s.storeHeader bytes).startTransfer t).1 qs' (a.push (queued s.client.urcQueue
      ((s.storeHeader bytes).startTransfer t).1.client.urcQueue)) ∧ SameDeq qs qs' := by
  have hends : s.LineEnds (.got bytes) := by simp [LineEnds, hbin, hcount, hge]
  have hnr : ¬s.client.Receiving .urc := fun hr => by
    have := hr.2.1
    omega
  rcases hp : (s.storeHeader bytes).client.parseLine t (s.storeHeader bytes).client.rxBuffer
    with ⟨c, code⟩
  obtain ⟨n, hlen, hn⟩ := (s.storeHeader bytes).startTransfer_eq t hp
  obtain ⟨qs1, htr1, hsd1, hiff, hcom1⟩ :=
    parseLine_linked hp h.tracks (h.closed hnr) (hshort hends)
  obtain ⟨qs2, htr2, hsd2, hurc, hother, hcom2⟩ :=
    setupBinaryTransfer_linked (s := { s.storeHeader bytes with client := c }) (t := t) n hlen htr1 hiff
  obtain ⟨-, hb, hx⟩ := parseLine_setup hp
  obtain ⟨hb1, hc1, -⟩ := setupBinaryTransfer_client t { s.storeHeader bytes with client := c } code n
  rw [hn]
  generalize setupBinaryTransfer t { s.storeHeader bytes with client := c } code n = s1 at *
  obtain ⟨qs3, hl3, hsd3⟩ := binaryRxNext_linked (s := { s1 with client := { s1.client with
    rxBuffer := [] } }) t htr2 (hb1.trans (hb.trans hbin))
    (by simp only [hc1, hx]; exact hge) (fun hst => ⟨(hurc hst).1, (hurc hst).2, (hurc hst).3,
      (hurc hst).4, (hurc hst).5⟩) hother
  refine ⟨qs3, ?_, ⟨hsd3.deq.trans (hsd2.deq.trans hsd1.deq),
    hsd3.dequeueMutex.trans (hsd2.dequeueMutex.trans hsd1.dequeueMutex)⟩⟩
  rwa [queued_congr (hcom2.trans hcom1)] at hl3

theorem takePayload_other (bytes : List UInt8) (hok : RxOk s.client) (hapart : RspApart s.client)
    (hbin : s.client.isBinaryRx = true) (hge : 2 ≤ s.client.binaryRx.rxHeaderCount)
    (hst : s.client.binaryRx.state ≠ .urc) :
    (s.takePayload bytes).client.urcQueue = s.client.urcQueue := by
  have hdest : 0 < s.remainingBuf → ∀ off, s.client.binaryRx.pBuffer ≠ .urcBuffer off := by
    intro hpos
    cases h : s.client.binaryRx.state with
    | urc => exact absurd h hst
    | rsp => exact hapart ⟨hbin, hge, h⟩
    | flush =>
      have := hok.flush ⟨hbin, hge, h⟩
      unfold remainingBuf at hpos
      omega
  unfold takePayload storePayload
  by_cases hpos : 0 < s.remainingBuf
  · cases h : s.client.binaryRx.pBuffer with
    | urcBuffer off => exact absurd h (hdest hpos off)
    | caller b =>
      simp only
      split <;> rfl
    | null =>
      simp only
      split <;> rfl
  · simp [hpos]

/-- Payload bytes of a URC go behind those received before. -/
theorem OpenUrc.takePayload (h : OpenUrc s qs) (htr : Tracks s.client.urcQueue qs a)
    {bytes : List UInt8} (hfit : bytes.length ≤ s.client.binaryRx.remainingDataBytes) :
    ∃ qs', Tracks (s.takePayload bytes).client.urcQueue qs' a ∧ SameDeq qs qs' ∧
      OpenUrc (s.takePayload bytes) qs' ∧
      (s.takePayload bytes).client.urcQueue.committed = s.client.urcQueue.committed := by
  have hrec := h.received
  have hroom := h.room
  have hpos : 0 < s.remainingBuf := by
    unfold remainingBuf
    rw [h.bufferSize]
    omega
  have heq : s.takePayload bytes = { s with client := { s.client with
      urcQueue := { s.client.urcQueue with
        pBuffer := ByteMem.store s.client.urcQueue.pBuffer
          (qs.payloadPtr + s.client.binaryRx.bufferPos) bytes }
      binaryRx := s.client.binaryRx.advance true bytes.length } } := by
    simp only [AtState.takePayload, storePayload, hpos, decide_true, ↓reduceIte, h.pBuffer]
  obtain ⟨qs', htr', hsd, henq, hptr, hspace⟩ :=
    htr.storePayload h.enq s.client.binaryRx.bufferPos bytes
  rw [heq]
  refine ⟨qs', htr', hsd, ⟨henq ▸ h.enq, ?_, ?_, ?_, ?_⟩, rfl⟩
  · rw [hptr]
    exact h.pBuffer
  · rw [hspace]
    exact h.bufferSize
  · show s.client.binaryRx.bufferPos + bytes.length +
      (s.client.binaryRx.remainingDataBytes - bytes.length) = s.announced
    omega
  · rw [hspace]
    exact hroom

theorem Linked.takePayload (h : Linked s qs a) (hok : RxOk s.client) (hapart : RspApart s.client)
    {bytes : List UInt8} (hbin : s.client.isBinaryRx = true)
    (hge : 2 ≤ s.client.binaryRx.rxHeaderCount)
    (hfit : bytes.length ≤ s.client.binaryRx.remainingDataBytes) :
    ∃ qs', Tracks (s.takePayload bytes).client.urcQueue qs' a ∧ SameDeq qs qs' ∧
      (s.client.binaryRx.state = .urc → OpenUrc (s.takePayload bytes) qs') ∧
      (s.client.binaryRx.state ≠ .urc → qs'.enq = none) ∧
      (s.takePayload bytes).client.urcQueue.committed = s.client.urcQueue.committed := by
  by_cases hst : s.client.binaryRx.state = .urc
  · obtain ⟨qs', htr', hsd, hopen, hcom⟩ := (h.payload ⟨hbin, hge, hst⟩).takePayload h.tracks hfit
    exact ⟨qs', htr', hsd, fun _ => hopen, fun hne => absurd hst hne, hcom⟩
  · have hq := takePayload_other bytes hok hapart hbin hge hst
    refine ⟨qs, by rw [hq]; exact h.tracks, ⟨rfl, rfl⟩, fun hu => absurd hu hst,
      fun _ => h.closed fun hr => hst hr.2.2, by rw [hq]⟩

/-- The bytes of a payload read are no more than are due. -/
theorem payload_le {bytes : List UInt8} (hbin : s.client.isBinaryRx = true)
    (hge : 2 ≤ s.client.binaryRx.rxHeaderCount) (hfit : bytes.length ≤ s.wants) :
    bytes.length ≤ s.client.binaryRx.remainingDataBytes := by
  have hlt : ¬s.client.binaryRx.rxHeaderCount < 2 := by omega
  simp only [wants, hbin, Bool.not_true, Bool.false_eq_true, hlt, ↓reduceIte] at hfit
  split at hfit <;> omega

/-- **What a read does to the URC queue**: it queues the URC that it completes. -/
theorem Linked.read (h : Linked s qs a) (hok : RxOk s.client) (hapart : RspApart s.client)
    {r : ReadStatus} {ret : Option ParserCode} (he : RxEffect t s r s' ret)
    (hfit : ∀ bytes, r = .got bytes → bytes.length ≤ s.wants) (hshort : ShortUrc s r) :
    ∃ qs', Linked s' qs' (a.push (queued s.client.urcQueue s'.client.urcQueue)) ∧ SameDeq qs qs' := by
  have same : ∀ {s1 : AtState}, s1.client.urcQueue = s.client.urcQueue →
      (s1.client.Receiving .urc ↔ s.client.Receiving .urc) → (OpenUrc s qs → OpenUrc s1 qs) →
      ∃ qs', Linked s1 qs' (a.push (queued s.client.urcQueue s1.client.urcQueue)) ∧
        SameDeq qs qs' := by
    intro s1 hq hiff hopen
    refine ⟨qs, ⟨?_, fun hn => h.closed (mt hiff.2 hn), fun hr => hopen (h.payload (hiff.1 hr))⟩,
      ⟨rfl, rfl⟩⟩
    rw [hq, queued_none rfl, Fifo.State.push_none]
    exact h.tracks
  cases he with
  | failed err => exact same rfl Iff.rfl fun ho => ⟨ho.1, ho.2, ho.3, ho.4, ho.5⟩
  | quiet hbin _ =>
    refine same rfl ⟨fun hr => ?_, fun hr => absurd hr (not_receiving hbin)⟩ fun ho =>
      ⟨ho.1, ho.2, ho.3, ho.4, ho.5⟩
    have := hr.2.1
    simp [hok.idle hbin] at this
  | line hbin heol hp => exact h.line hbin heol hp hshort
  | @header bytes hbin hlt =>
    have hnr : ¬s.client.Receiving .urc := fun hr => by
      have := hr.2.1
      omega
    refine ⟨qs, ⟨?_, fun _ => h.closed hnr, fun hr => ?_⟩, ⟨rfl, rfl⟩⟩
    · have hq : (s.storeHeader bytes).client.urcQueue = s.client.urcQueue := rfl
      rw [hq, queued_none rfl, Fifo.State.push_none]
      exact h.tracks
    · have := hr.2.1
      simp only [storeHeader] at this
      omega
  | start hbin hcount hge => exact h.start hbin hcount hge hshort
  | stalled hbin hge =>
    obtain ⟨qs', htr, hsd, hurc, hother, hcom⟩ :=
      h.takePayload hok hapart hbin hge (payload_le hbin hge (hfit [] rfl))
    obtain ⟨-, h1, h2, h3, -⟩ := s.takePayload_client []
    refine ⟨qs', ⟨?_, fun hn => hother fun hst => hn ?_, fun hr => hurc (h3.symm.trans hr.2.2)⟩, hsd⟩
    · rw [queued_none hcom, Fifo.State.push_none]
      exact htr
    · exact ⟨h1.trans hbin, by rw [h2]; exact hge, h3.trans hst⟩
  | @payload bytes hne hbin hge =>
    obtain ⟨qs1, htr, hsd1, hurc, hother, hcom⟩ :=
      h.takePayload hok hapart hbin hge (payload_le hbin hge (hfit bytes rfl))
    obtain ⟨-, h1, h2, h3, -⟩ := s.takePayload_client bytes
    obtain ⟨qs2, hl2, hsd2⟩ := binaryRxNext_linked t htr (h1.trans hbin) (by rw [h2]; exact hge)
      (fun hst => hurc (h3.symm.trans hst)) fun hst => hother fun h0 => hst (h3.trans h0)
    refine ⟨qs2, ?_, ⟨hsd2.deq.trans hsd1.deq, hsd2.dequeueMutex.trans hsd1.dequeueMutex⟩⟩
    rwa [queued_congr hcom] at hl2

theorem RspApart.read {r : ReadStatus} {ret : Option ParserCode} (h : RspApart s.client)
    (hok : RxOk s.client) (he : RxEffect t s r s' ret) : RspApart s'.client := by
  intro hr off
  rcases he.rsp hok hr with ⟨hr', hbuf, -⟩ | ⟨-, hbuf, -⟩
  · rw [hbuf]
    exact h hr' off
  · rw [hbuf]
    cases s.client.rspBinaryBuf.pBuffer <;> nofun

end

/-! ## What a read leaves alone -/

theorem parseLine_fixed (t : Nat) (c : AtClient) (pLine : List UInt8) :
    (c.parseLine t pLine).1.urcQueue.fixed = c.urcQueue.fixed := by
  rw [parseLine_eq]
  cases lineKind c.executingCmd c.pExpectedRsp pLine <;> simp [onLine]

theorem setupBinaryTransfer_fixed (t : Nat) (s : AtState) (ret : ParserCode) (n : Nat) :
    (setupBinaryTransfer t s ret n).client.urcQueue.fixed = s.client.urcQueue.fixed := by
  cases ret with
  | gotUrc =>
    simp only [setupBinaryTransfer]
    split <;> simp [setupBinaryRxBuffer]
  | _ => rfl

theorem binaryRxNext_fixed (t : Nat) (s : AtState) :
    (s.binaryRxNext t).1.client.urcQueue.fixed = s.client.urcQueue.fixed := by
  rcases s.binaryRxNext_cases t with ⟨-, heq⟩ | ⟨-, heq⟩
  · rw [heq]
  · rw [heq]
    simp only [binaryRxDone]
    split <;> simp

theorem takePayload_fixed (s : AtState) (bytes : List UInt8) :
    (s.takePayload bytes).client.urcQueue.fixed = s.client.urcQueue.fixed := by
  unfold takePayload storePayload
  cases s.client.binaryRx.pBuffer <;> simp only <;> split <;> rfl

section
variable {t : Nat} {s s' : AtState} {r : ReadStatus} {ret : Option ParserCode}

theorem RxEffect.fixed (h : RxEffect t s r s' ret) :
    s'.client.urcQueue.fixed = s.client.urcQueue.fixed := by
  cases h with
  | failed err => rfl
  | quiet => rfl
  | @line b c code _ _ hp =>
    have hpl := parseLine_fixed t s.client s.client.rxBuffer
    rw [hp] at hpl
    rw [← hpl]
    unfold lineDone
    split <;> simp
  | header => rfl
  | @start bytes =>
    rcases hp : (s.storeHeader bytes).client.parseLine t (s.storeHeader bytes).client.rxBuffer
      with ⟨c, code⟩
    obtain ⟨n, -, hn⟩ := (s.storeHeader bytes).startTransfer_eq t hp
    have hpl := parseLine_fixed t (s.storeHeader bytes).client (s.storeHeader bytes).client.rxBuffer
    rw [hp] at hpl
    rw [hn, binaryRxNext_fixed]
    exact (setupBinaryTransfer_fixed t _ code n).trans hpl
  | stalled => exact takePayload_fixed s []
  | @payload bytes =>
    rw [binaryRxNext_fixed, takePayload_fixed]

theorem RxEffect.dequeueMutex (h : RxEffect t s r s' ret) :
    s'.client.urcQueue.dequeueMutex = s.client.urcQueue.dequeueMutex :=
  congrArg Prod.fst h.fixed

theorem RxEffect.bufferLen (h : RxEffect t s r s' ret) :
    s'.client.urcQueue.bufferLen = s.client.urcQueue.bufferLen :=
  congrArg Prod.snd h.fixed

end

end AtState
