import UcxClient.Client.RxBounds
import UcxClient.Threads.Handed
import UcxClient.Threads.QueueLock

/-!
# The invariant of the receiver

`ReceiverOk` relates the line buffer, the record of the transfer and the open entry of the URC queue,
`StoresFit` says that what a read is about to store lies in its buffer. `receiver_invariant`: both
hold in every run in which the queue accepts no line of 2^31 bytes or more (`Admitted`). Such a
line passes the comparison with the free space whatever that is (`overlong_line_stored`).
-/

open Transition UrcQueue

namespace AtState

structure ReceiverOk (s : AtState) : Prop extends RxBounds s.client where
  idle : s.client.isBinaryRx = false → s.client.binaryRx.rxHeaderCount = 0
  /-- an entry is open exactly while the payload of a URC is received -/
  openEntry : s.client.urcQueue.pEnqueueEntry ≠ none ↔ s.client.Receiving .urc
  announced : s.client.Receiving .urc →
    s.client.binaryRx.bufferPos + s.client.binaryRx.remainingDataBytes = s.announced ∧
    s.announced < (uCxAtUrcQueueEnqueueGetPayloadPtr s.client.urcQueue).2
  /-- the payload goes into the URC buffer -/
  payloadArea : s.client.Receiving .urc → ∃ off, s.client.binaryRx.pBuffer = .urcBuffer off ∧
    off + s.client.binaryRx.bufferSize ≤ s.client.urcQueue.bufferLen
  /-- the payload of a response goes to its caller -/
  response : s.client.Receiving .rsp → ∀ off, s.client.binaryRx.pBuffer ≠ .urcBuffer off
  /-- the length fields of the open entry -/
  entryHeader : ∀ pEntry, s.client.urcQueue.pEnqueueEntry = some pEntry →
    pEntry + sizeofUrcEntry ≤ s.client.urcQueue.bufferLen
  asserted : s.client.urcQueue.assertFailed = false

/-- What the read makes the receiver store fits. -/
structure StoresFit (s : AtState) (r : ReadStatus) : Prop where
  /-- the entry of a URC, into the URC buffer -/
  entry : s.LineEnds r → s.client.bufferedKind = .urc →
    s.client.urcQueue.hasSpaceFor s.client.rxBuffer.length = true →
    s.client.urcQueue.bufferPos + (newEntry s.client.rxBuffer).length ≤ s.client.urcQueue.bufferLen
  /-- the bytes of a payload, which are no more than remain -/
  payload : ∀ bytes, r = .got bytes → s.client.isBinaryRx = true →
    2 ≤ s.client.binaryRx.rxHeaderCount →
    bytes.length ≤ s.client.binaryRx.remainingDataBytes ∧
    (0 < s.remainingBuf →
      s.client.binaryRx.bufferPos + bytes.length ≤ s.client.binaryRx.bufferSize)

end AtState

namespace Sys

open AtState

/-- No accepted line has 2^31 bytes or more, and no thread locks a mutex of the queue again. -/
structure Admitted (s : Sys) (ta : Nat × Act) : Prop where
  fits : ∀ r now, ta.2 = .read r now → s.st.LineEnds r → s.st.client.bufferedKind = .urc →
    s.st.client.urcQueue.hasSpaceFor s.st.client.rxBuffer.length = true →
    s.st.client.rxBuffer.length < 2 ^ 31
  relock : ta.2 = .next → ¬s.Relocks ta.1

section
variable {s s' : Sys} {t : Nat} {a : Act} {qs : QueueSys} {q : Fifo.State Urc}

/-- Where the entry of an accepted line ends. -/
theorem Sim.entryFits (h : Sim s qs q) {n : Nat} (hn : n < 2 ^ 31)
    (hsp : s.st.client.urcQueue.hasSpaceFor n = true) :
    s.st.client.urcQueue.bufferPos + (4 + n + 1) ≤ s.st.client.urcQueue.bufferLen := by
  have hdata := h.linked.tracks.data
  have hrep := h.linked.tracks.rep
  rw [hdata.hasSpaceFor] at hsp
  rw [hdata.bufferPos, hdata.bufferLen]
  exact (hasSpaceFor_iff hrep.bufferPos_le hrep.small hn).1 hsp

theorem Admitted.guarded (hok : Admitted s (t, a)) (h : Sim s qs q)
    (hlen : s.st.client.urcQueue.bufferLen ≤ 65535) : Guarded s (t, a) := by
  refine ⟨fun r now hr hends hk hsp => ?_, hok.relock⟩
  have := h.entryFits (hok.fits r now hr hends hk hsp) hsp
  omega

/-- The invariant, from the simulation. -/
theorem Sim.receiverOk (h : Sim s qs q) (hb : RxBounds s.st.client) : ReceiverOk s.st := by
  have hdata := h.linked.tracks.data
  have hrep := h.linked.tracks.rep
  obtain ⟨used, free, hbuf, -, hpos, hp⟩ := hrep.layout
  have henq : qs.enq ≠ none ↔ s.st.client.Receiving .urc :=
    ⟨fun hne => Classical.byContradiction fun hn => hne (h.linked.closed hn),
      fun hr => (h.linked.payload hr).enq⟩
  refine { hb with
    idle := h.rxOk.idle
    openEntry := ?_
    announced := fun hr => ?_
    payloadArea := fun hr => ?_
    response := h.apart
    entryHeader := fun pEntry he => ?_
    asserted := hdata.assertFailed.trans h.linked.tracks.asserted.passed }
  · rw [← henq, hdata.pEnqueueEntry, hp, ne_eq, Option.map_eq_none_iff]
  · have ho := h.linked.payload hr
    rw [hdata.payloadPtr]
    exact ⟨ho.received, ho.room⟩
  · have ho := h.linked.payload hr
    obtain ⟨line, hl⟩ := Option.ne_none_iff_exists'.1 ho.enq
    obtain ⟨hptr, hspace⟩ := hrep.payloadPtr_eq hl
    have hle := hrep.bufferPos_le
    refine ⟨qs.payloadPtr, ho.pBuffer, ?_⟩
    rw [ho.bufferSize, hdata.bufferLen]
    omega
  · rw [hdata.pEnqueueEntry, hp] at he
    obtain ⟨line, hl, rfl⟩ := Option.map_eq_some_iff.1 he
    have hle := hrep.bufferPos_le
    rw [hpos, hl] at hle
    simp only [QueueSys.openBytes, length_newEntry] at hle
    rw [hdata.bufferLen]
    simp only [sizeofUrcEntry]
    omega

/-- What a read stores, from the simulation. -/
theorem Sim.storesFit (h : Sim s qs q) {r : ReadStatus} {now : Int}
    (hok : Admitted s (t, .read r now)) (hb : RxBounds s.st.client)
    (hfit : ∀ bytes, r = .got bytes → bytes.length ≤ s.st.wants) : StoresFit s.st r := by
  refine ⟨fun hends hk hsp => ?_, fun bytes hr hbin hge => ?_⟩
  · have := h.entryFits (hok.fits r now rfl hends hk hsp) hsp
    rw [length_newEntry]
    omega
  · have hle := hfit bytes hr
    refine ⟨payload_le hbin hge hle, fun hrem => ?_⟩
    have hpos := hb.bufferPos
    have hlt : ¬s.st.client.binaryRx.rxHeaderCount < 2 := by omega
    simp only [wants, hbin, Bool.not_true, Bool.false_eq_true, hlt, hrem, ↓reduceIte] at hle
    unfold remainingBuf at hle hrem
    omega

/-! ## One step -/

/-- What keeps the bounds and the length of the URC buffer. -/
structure Bounded (s s' : Sys) : Prop where
  bounds : RxBounds s.st.client → RxBounds s'.st.client
  bufferLen : s'.st.client.urcQueue.bufferLen = s.st.client.urcQueue.bufferLen

theorem bounded_urcStep {k : Option Int} {pc : UrcPc} {fs : List Frame}
    (hs : s.urcStep t k fs pc = some s') : Bounded s s' := by
  have queue : ∀ (urcQueue : UrcQueue) (fs' : List Frame),
      urcQueue.bufferLen = s.st.client.urcQueue.bufferLen →
      Bounded s (s.set t { s.st.client with urcQueue } fs') :=
    fun _ _ hlen => ⟨fun hb => hb.congr rfl rfl rfl, hlen⟩
  cases pc with
  | start =>
    simp only [urcStep] at hs
    obtain rfl := Option.some.inj hs
    apply queue
    unfold tryLockDequeue
    split <;> simp
  | locked =>
    simp only [urcStep] at hs
    split at hs
    · obtain rfl := Option.some.inj hs
      exact queue _ _ rfl
    · cases hs
  | checked p =>
    cases p <;>
    · obtain rfl := Option.some.inj hs
      exact queue _ _ rfl
  | callback p => cases hs
  | called p =>
    simp only [urcStep] at hs
    split at hs
    · obtain rfl := Option.some.inj hs
      exact queue _ _ (bufferLen_popEntry _ p)
    · cases hs
  | popped =>
    obtain rfl := Option.some.inj hs
    exact queue _ _ rfl
  | done =>
    obtain rfl := Option.some.inj hs
    exact ⟨fun hb => hb.congr rfl rfl rfl, rfl⟩

theorem AfterRx.bounded {r : ReadStatus} {st : AtState} {ret : Option ParserCode}
    (hrx : AfterRx s t r st ret) : Bounded s { s with st } := by
  refine ⟨fun hb => ?_, hrx.effect.bufferLen⟩
  have := rxStep_bounds (t := t) hb hrx.le_wants
  rwa [hrx.rx] at this

/-- **A step keeps the bounds and the length of the URC buffer.** -/
theorem step_bounded (hs : s.step (t, a) = some s') : Bounded s s' := by
  by_cases hnext : a = .next
  · subst hnext
    simp only [Sys.step] at hs
    split at hs
    · exact bounded_urcStep hs
    · cases hs
  have after : ∀ {s1 s2 : Sys}, Bounded s s1 → s2.st.client.rxBuffer = s1.st.client.rxBuffer →
      s2.st.client.rxBufferLen = s1.st.client.rxBufferLen →
      s2.st.client.binaryRx = s1.st.client.binaryRx →
      s2.st.client.urcQueue = s1.st.client.urcQueue → Bounded s s2 := by
    intro s1 s2 hb h1 h2 h3 h4
    exact ⟨fun h => (hb.bounds h).congr h1 h2 h3, h4 ▸ hb.bufferLen⟩
  have same : Bounded s s := ⟨id, rfl⟩
  cases step_effect hs with
  | rxClosed => exact same
  | user hu hc =>
    obtain ⟨_, _, _, _, _, rfl⟩ := hc
    exact ⟨fun hb => hb.congr rfl rfl rfl, rfl⟩
  | urc | urcsDone => exact absurd rfl hnext
  | readMore hrx | readStay hrx => exact hrx.bounded
  | rxDone hrx | rspDone hrx | endDone hrx => exact after hrx.bounded rfl rfl rfl rfl
  | _ => exact after same rfl rfl rfl rfl

end

/-! ## The main theorem -/

section
variable {reentrant : Bool} {rxBufferLen : Nat} {pUrcBuffer : List UInt8} {mem : CallerMem} {s : Sys}

theorem sim_of_reach (hrx : 1 ≤ rxBufferLen) (hurc : pUrcBuffer.length ≤ 65535)
    (h : Reach step Admitted (· = init reentrant rxBufferLen pUrcBuffer mem) s) :
    (∃ qs q, Sim s qs q) ∧ RxBounds s.st.client ∧ s.st.client.urcQueue.bufferLen ≤ 65535 := by
  refine h.invariant (I := fun s => (∃ qs q, Sim s qs q) ∧ RxBounds s.st.client ∧
    s.st.client.urcQueue.bufferLen ≤ 65535) ?_ ?_
  · rintro s rfl
    exact ⟨⟨_, _, sim_init reentrant rxBufferLen mem (by omega)⟩,
      rxBounds_init reentrant pUrcBuffer hrx, hurc⟩
  · intro s ⟨t, a⟩ s' ⟨⟨qs, q, hsim⟩, hb, hlen⟩ hok hs
    obtain ⟨q', -, qs', hsim'⟩ := hsim.step (hok.guarded hsim hlen) hs
    have hbd := step_bounded hs
    exact ⟨⟨qs', q', hsim'⟩, hbd.bounds hb, hbd.bufferLen ▸ hlen⟩

end

/-- A client in `uCxAtClientHandleRx` of thread 0. -/
def listening (rxBufferLen : Nat) (rxBuffer : List UInt8) : AtClient :=
  { uCxAtClientInit false rxBufferLen (List.replicate 16 0) with
    opened := true, cmdMutex := (Mutex.create false).lock 0, rxBuffer }

/-- The line buffer fills up. -/
theorem listening_reached (rxBufferLen n : Nat) (hn : n < rxBufferLen) :
    ∃ s, Reach step anyStep
        (· = init false rxBufferLen (List.replicate 16 0) ⟨fun _ _ => 0, fun _ => 0⟩) s ∧
      s.threads 0 = [.handleRx] ∧
      s.st.client = listening rxBufferLen (List.replicate n (ch '+')) := by
  induction n with
  | zero =>
    refine ⟨_, .next (.next (.start rfl) (a := (0, .clientOpen)) trivial rfl) (a := (0, .handleRx))
      trivial rfl, rfl, rfl⟩
  | succ n ih =>
    obtain ⟨s, hr, hth, hc⟩ := ih (by omega)
    have hpr : isprint (ch '+') = true := rfl
    have hbin : s.st.client.isBinaryRx = false := by
      rw [hc]
      rfl
    have hbuf : s.st.client.rxBuffer = List.replicate n (ch '+') := by
      rw [hc]
      rfl
    have hlen : s.st.client.rxBufferLen = rxBufferLen := by
      rw [hc]
      rfl
    have hne : ¬(List.replicate n (ch '+') ++ [ch '+']).length = rxBufferLen := by
      simp only [List.length_append, List.length_replicate, List.length_singleton]
      omega
    have hrx : s.st.rxStep 0 (.got [ch '+']) =
        ({ s.st with client := { s.st.client with
          rxBuffer := List.replicate n (ch '+') ++ [ch '+'] } }, none) := by
      simp only [rxStep, hbin, Bool.not_false, ↓reduceIte, readChar_print 0 s.st hpr, hbuf, hlen, hne]
    have hfits : ReadStatus.fits s.st.wants (.got [ch '+']) = true := by
      simp [ReadStatus.fits, wants, hbin]
    have hs : s.step (0, .read (.got [ch '+']) 0) = some { s with st := { s.st with
        client := { s.st.client with rxBuffer := List.replicate n (ch '+') ++ [ch '+'] } } } := by
      have hblocked : s.st.client.urcQueue.queueMutex.blocked = false := by
        rw [hc]
        rfl
      simp only [step, hth, inRx, hfits, and_self, ↓reduceIte, hrx, hblocked, Bool.false_eq_true,
        afterRead]
    refine ⟨_, hr.next trivial hs, hth, ?_⟩
    rw [List.replicate_succ', hc]
    rfl

theorem lineKind_plus (p : Option (List UInt8)) (line : List UInt8) :
    lineKind false p (ch '+' :: line) = .urc := rfl

end Sys
