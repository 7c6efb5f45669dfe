import UcxClient.Client.ByteWise
import UcxClient.Client.Delivery
import UcxClient.Text.Framing

/-!
# Room for the payload of a URC

When the length of a transfer has been received the line in the buffer is parsed. If it is a URC it is
enqueued, and the transfer goes into the queue if `uCxAtUrcQueueEnqueueGetPayloadPtr` reports more bytes
than the payload has; otherwise the entry is given up (`rxBytes_urc`). What is reported are the unused
bytes as a `uint16_t`. `urc_dropped_for_room_iff` says when this makes no difference.
-/

open ByteMem UrcQueue AtClient

namespace UrcQueue

/-- An accepted line has room for its entry, if its length is an `int32_t`. -/
theorem room_of_hasSpaceFor {q : UrcQueue} {n : Nat} (hs : q.hasSpaceFor n = true)
    (hle : q.bufferPos ≤ q.bufferLen) (hn : n < 2 ^ 31) : q.bufferPos + (4 + n + 1) ≤ q.bufferLen := by
  rw [hasSpaceFor, getUnusedBuf, sizeSub_of_le hle, decide_eq_true_eq,
    toInt32_of_lt (n := (n : Int)) (by omega) (by omega)] at hs
  have hspace := toInt32_le (n := ((q.bufferLen - q.bufferPos : Nat) : Int) - sizeofUrcEntry)
    (by simp only [sizeofUrcEntry]; omega)
  simp only [sizeofUrcEntry] at hs hspace
  omega

theorem Stored.not_concat {q : UrcQueue} {us : List Urc} {u : Urc} (h : Stored q us) :
    ¬Stored q (us ++ [u]) := by
  intro h'
  have hpos := h.pos.symm.trans h'.pos
  rw [encodeAll_concat, List.length_append, Urc.length_encode] at hpos
  omega

end UrcQueue

namespace AtClient

/-- The queue once the line in the buffer has been enqueued. -/
def lineQueue (t : Nat) (c : AtClient) : UrcQueue :=
  (uCxAtUrcQueueEnqueueBegin t c.urcQueue c.rxBuffer).2

theorem parseLine_urc (t : Nat) {c : AtClient} (hk : c.bufferedKind = .urc)
    (hs : c.urcQueue.hasSpaceFor c.rxBuffer.length = true) :
    c.parseLine t c.rxBuffer = ({ c with urcQueue := c.lineQueue t }, .gotUrc) := by
  rw [parseLine_eq, show lineKind c.executingCmd c.pExpectedRsp c.rxBuffer = _ from hk, onLine,
    enqueueBegin_fst, hs]
  rfl

end AtClient

namespace AtState

section
variable {t : Nat} {s : AtState}

/-! ## The payload -/

/-- The payload of a URC goes into the space behind its line. -/
theorem rxBytes_kept (h : s.client.Receiving .urc) {off : Nat} {payload : List UInt8}
    (hoff : s.client.binaryRx.pBuffer = .urcBuffer off) (hpos : s.client.binaryRx.bufferPos = 0)
    (hlen : s.client.binaryRx.remainingDataBytes = payload.length)
    (hroom : payload.length < s.client.binaryRx.bufferSize) :
    (rxBytes t (s.binaryRxNext t).1 payload).1.client.urcQueue =
      uCxAtUrcQueueEnqueueEnd t { s.client.urcQueue with
        pBuffer := store s.client.urcQueue.pBuffer off payload } payload.length := by
  obtain ⟨hbin, hge, hst⟩ := h
  by_cases hne : payload = []
  · subst hne
    rw [binaryRxNext, if_neg (by rw [hlen]; exact Nat.lt_irrefl 0)]
    simp only [rxBytes, Machine.feed, binaryRxDone, hst, hpos, store_nil, List.length_nil]
  · have hpositive : 0 < payload.length := List.length_pos_iff.2 hne
    have hremaining : s.remainingBuf = s.client.binaryRx.bufferSize := by
      rw [remainingBuf, hpos, Nat.sub_zero]
    have hwants : payload.length ≤ s.wants := by
      simp only [wants, hbin, Nat.not_lt.2 hge, hremaining, hlen, Bool.not_true, Bool.false_eq_true, if_false]
      rw [if_pos (by omega)]
      omega
    rw [binaryRxNext, if_pos (by omega), ← (rxStep_got (t := t) hwants).1, rxStep_payload hbin hge, readPayload,
      if_neg hne, takePayload_store (by omega)]
    simp only [storePayload, hoff, hpos, hlen, binaryRxNext, Nat.sub_self, Nat.lt_irrefl, if_false,
      binaryRxDone, hst, Nat.zero_add, Nat.add_zero]

/-- A payload that is flushed does not go into the queue. -/
theorem rxBytes_flushed (h : s.client.Receiving .flush) (hroom : s.remainingBuf = 0)
    {payload : List UInt8} (hlen : s.client.binaryRx.remainingDataBytes = payload.length) :
    (rxBytes t (s.binaryRxNext t).1 payload).1.client.urcQueue = s.client.urcQueue := by
  induction payload generalizing s with
  | nil =>
    rw [binaryRxNext, if_neg (by rw [hlen]; exact Nat.lt_irrefl 0)]
    simp only [rxBytes, Machine.feed, binaryRxDone, h.2.2]
  | cons b bs ih =>
    obtain ⟨hbin, hge, hst⟩ := h
    rw [List.length_cons] at hlen
    have hbyte : (rxByte t s b).1 = ((s.takePayload [b]).binaryRxNext t).1 := by
      rw [rxByte, rxStep_payload hbin hge, readPayload, if_neg (List.cons_ne_nil b [])]
    have htake := takePayload_discard (s := s) (by omega) [b]
    rw [binaryRxNext, if_pos (by omega), rxBytes, Machine.feed_cons, ← rxBytes, hbyte, htake]
    exact ih ⟨hbin, hge, hst⟩ hroom (by simp only [hlen, List.length_singleton, Nat.add_sub_cancel])

/-! ## The whole transfer -/

/-- The state behind the length of a transfer that is not a response. -/
def started (s : AtState) (high low : UInt8) (urcQueue : UrcQueue) (state : BinaryState)
    (pBuffer : BinaryDest) (bufferSize : Nat) : AtState where
  client := { s.client with
    isBinaryRx := true
    rxBuffer := []
    urcQueue
    binaryRx := {
      state, pBuffer, bufferSize
      rxHeaderCount := 2
      remainingDataBytes := announcedLength high low
      bufferPos := 0 } }
  mem := s.mem
  lengthBuf := (high, low)

/-- The decision where a payload goes. -/
theorem startTransfer_urc (t : Nat) (hk : s.client.bufferedKind = .urc)
    (hs : s.client.urcQueue.hasSpaceFor s.client.rxBuffer.length = true) (high low : UInt8) :
    (s.withLength high low).startTransfer t = binaryRxNext t
      (let q := s.client.lineQueue t
      let (pPtr, len) := uCxAtUrcQueueEnqueueGetPayloadPtr q
      if announcedLength high low < len then s.started high low q .urc (.urcBuffer pPtr) len
      else s.started high low (uCxAtUrcQueueEnqueueAbort t q) .flush .null 0) := by
  obtain ⟨n, hn, hnext⟩ := (s.withLength high low).startTransfer_eq t
    (parseLine_urc t (c := (s.withLength high low).client) hk hs)
  rw [hnext]
  obtain rfl : announcedLength high low = n := hn
  have hq : (s.withLength high low).client.lineQueue t = s.client.lineQueue t := rfl
  simp only [setupBinaryTransfer, hq]
  split
  · rfl
  · rfl

/-- **A URC line with a binary transfer.** -/
theorem rxBytes_urc (hok : RxOk s.client) (hchar : s.client.isBinaryRx = false)
    (hk : s.client.bufferedKind = .urc)
    (hs : s.client.urcQueue.hasSpaceFor s.client.rxBuffer.length = true) {high low : UInt8}
    {payload : List UInt8} (hlen : payload.length = announcedLength high low) :
    (rxBytes t s (sohChar :: high :: low :: payload)).1.client.urcQueue =
      let q := s.client.lineQueue t
      let (pPtr, len) := uCxAtUrcQueueEnqueueGetPayloadPtr q
      if payload.length < len then
        uCxAtUrcQueueEnqueueEnd t { q with pBuffer := store q.pBuffer pPtr payload } payload.length
      else uCxAtUrcQueueEnqueueAbort t q := by
  obtain ⟨s1, hs1⟩ : ∃ s1 : AtState, s1 = { s with client := { s.client with isBinaryRx := true } } :=
    ⟨_, rfl⟩
  have hsoh : (rxByte t s sohChar).1 = s1 := by
    rw [rxByte, rxStep_char hchar, readChar_soh, hs1]
  have hwith : s1.withLength high low = s.withLength high low := by
    rw [hs1]
    rfl
  obtain ⟨hwants, hlength⟩ := rxStep_length (s := s1) t (hs1 ▸ hok.idle hchar) (hs1 ▸ rfl) high low
  have hfeed : (rxBytes t s (sohChar :: high :: low :: payload)).1 =
      (rxBytes t ((s.withLength high low).startTransfer t).1 payload).1 := by
    rw [← hwith, ← hlength, (rxStep_got hwants).1, ← hsoh]
    rfl
  rw [hfeed, startTransfer_urc t hk hs, hlen]
  dsimp only
  split
  · next hlt =>
    rw [← hlen]
    exact rxBytes_kept (s := s.started high low _ _ _ _) ⟨rfl, Nat.le_refl 2, rfl⟩ rfl rfl hlen.symm (hlen ▸ hlt)
  · exact rxBytes_flushed (s := s.started high low _ _ _ _) ⟨rfl, Nat.le_refl 2, rfl⟩ rfl hlen.symm

/-! ## What is kept -/

/-- `processUrcs` calls the URC callback for the URCs `us`, and for no others. -/
def DeliversAll (t : Nat) (edit : Callback) (us : List Urc) (c : AtClient) : Prop :=
  ∃ calls c', c.processUrcs t edit (c.urcQueue.bufferPos + 1) = some (calls, c') ∧
    calls.map Prod.snd = us.map Urc.view

theorem deliversAll_iff (t : Nat) (edit : Callback) {us : List Urc} {c : AtClient}
    (h : Stored c.urcQueue us) (hcb : c.urcCallback = true) :
    DeliversAll t edit us c ↔ (∀ u ∈ us, u.Fits) ∧ c.urcQueue.bufferPos < 2 ^ 31 := by
  refine ⟨?_, ?_⟩
  · intro ⟨calls, c', hp, hcalls⟩
    exact fits_of_processUrcs t edit h.pos hcb hp hcalls
  · intro ⟨hfits, hsmall⟩
    obtain ⟨calls, q', hp, -, -, hcalls, -⟩ :=
      processUrcs_stored t edit hfits h hcb hsmall (Nat.lt_succ_self _)
    exact ⟨calls, _, hp, hcalls⟩

/-- The URC `u`, behind whose line there are `unused` bytes, is queued behind `us` and delivered if these
are enough for its payload; it is discarded only if they are not. -/
def DroppedForRoomOnly (t : Nat) (edit : Callback) (us : List Urc) (u : Urc) (unused : Nat)
    (c : AtClient) : Prop :=
  (u.payload.length ≤ unused → Stored c.urcQueue (us ++ [u]) ∧ DeliversAll t edit (us ++ [u]) c) ∧
  (Stored c.urcQueue us → unused < u.payload.length)

/-- A payload for which more than enough space is reported is kept. -/
theorem rxBytes_stored (hok : RxOk s.client) (hchar : s.client.isBinaryRx = false)
    (hk : s.client.bufferedKind = .urc) {us : List Urc} (hq : Stored s.client.urcQueue us)
    (hs : s.client.urcQueue.hasSpaceFor s.client.rxBuffer.length = true)
    (hline : s.client.rxBuffer.length < 65536) {high low : UInt8} {payload : List UInt8}
    (hlen : payload.length = announcedLength high low)
    (hroom : payload.length < (s.client.lineQueue t).getUnusedBuf % 65536) :
    Stored (rxBytes t s (sohChar :: high :: low :: payload)).1.client.urcQueue
      (us ++ [⟨s.client.rxBuffer, payload⟩]) := by
  have hle := room_of_hasSpaceFor hs hq.bufferPos_le (by omega)
  have hopen : Opened t (s.client.lineQueue t) us s.client.rxBuffer [] := hq.enqueueBegin t hs hle
  have hptr := hopen.payloadPtr hline
  have hused : (s.client.lineQueue t).bufferPos ≤ (s.client.lineQueue t).bufferLen := by
    obtain ⟨-, -, hlen', hpos'⟩ := enqueueBegin_accepted (t := t) hs
    rw [lineQueue, hlen', hpos', length_newEntry]
    omega
  have hfits : (s.client.lineQueue t).bufferPos + payload.length ≤ (s.client.lineQueue t).bufferLen := by
    rw [getUnusedBuf, sizeSub_of_le hused] at hroom
    omega
  rw [rxBytes_urc hok hchar hk hs hlen]
  simp only [hptr, hroom, if_true]
  exact (hopen.store rfl hfits).enqueueEnd

/-- **A binary URC is dropped only for lack of room** exactly if more bytes are unused than its payload
has, modulo 65536, the length of its line fits its field, and the queue takes less than 2 GiB with it; or
if there is no room. -/
theorem urc_dropped_for_room_iff (t : Nat) (edit : Callback) (hok : RxOk s.client)
    (hcb : s.client.urcCallback = true) (hchar : s.client.isBinaryRx = false)
    (hk : s.client.bufferedKind = .urc) {us : List Urc} (hq : Stored s.client.urcQueue us)
    (hus : ∀ u ∈ us, u.Fits) (hs : s.client.urcQueue.hasSpaceFor s.client.rxBuffer.length = true)
    {high low : UInt8} {payload : List UInt8} (hlen : payload.length = announcedLength high low)
    {n : Nat} {sched : List Arrival}
    (hall : (handleRxCalls t n s ⟨sohChar :: high :: low :: payload, sched⟩).2.1.rx = []) :
    DroppedForRoomOnly t edit us ⟨s.client.rxBuffer, payload⟩ (s.client.lineQueue t).getUnusedBuf
        (handleRxCalls t n s ⟨sohChar :: high :: low :: payload, sched⟩).1.client ↔
      (payload.length ≤ (s.client.lineQueue t).getUnusedBuf →
        payload.length < (s.client.lineQueue t).getUnusedBuf % 65536 ∧ s.client.rxBuffer.length < 65536 ∧
        (encodeAll (us ++ [⟨s.client.rxBuffer, payload⟩])).length < 2 ^ 31) := by
  obtain ⟨bs, hrx, hio, -⟩ := handleRxCalls_bytes t n s ⟨sohChar :: high :: low :: payload, sched⟩
  rw [hall, List.append_nil] at hrx
  obtain rfl : sohChar :: high :: low :: payload = bs := hrx
  generalize (handleRxCalls t n s ⟨sohChar :: high :: low :: payload, sched⟩).1 = s' at hio ⊢
  have hqueue : s'.client.urcQueue = (rxBytes t s (sohChar :: high :: low :: payload)).1.client.urcQueue :=
    congrArg (fun x => x.client.urcQueue) hio.symm
  have hcb' : s'.client.urcCallback = true := by
    have hsame := congrArg (fun x => x.client.urcCallback) hio
    have hsetup := congrArg Setup.urcCallback (rxBytes_setup_ok (t := t) hok (sohChar :: high :: low :: payload)).1
    exact hsame.symm.trans (hsetup.trans hcb)
  have hpayload : payload.length < 65536 := by
    have hhigh := high.toNat_lt
    have hlow := low.toNat_lt
    rw [hlen, announcedLength]
    omega
  refine ⟨fun h hle => ?_, fun h => ⟨fun hle => ?_, fun hstored => ?_⟩⟩
  · obtain ⟨hstored, hdelivers⟩ := h.1 hle
    obtain ⟨hfits, hsmall⟩ := (deliversAll_iff t edit hstored hcb').1 hdelivers
    refine ⟨?_, (hfits _ (List.mem_append_right us List.mem_cons_self)).1, hstored.pos ▸ hsmall⟩
    apply Classical.byContradiction
    intro hroom
    -- the entry has been given up
    have habort := rxBytes_urc (t := t) hok hchar hk hs hlen
    obtain ⟨-, hentry, -⟩ := enqueueBegin_accepted (t := t) hs
    have hpos := hstored.pos
    rw [hqueue, habort] at hpos
    simp only [uCxAtUrcQueueEnqueueGetPayloadPtr, hroom, if_false, uCxAtUrcQueueEnqueueAbort,
      pEnqueueEntry_assert] at hpos
    rw [lineQueue, hentry, Option.getD_some, hq.pos, encodeAll_concat, List.length_append,
      Urc.length_encode] at hpos
    omega
  · obtain ⟨hroom, hline, hsmall⟩ := h hle
    have hstored := rxBytes_stored (t := t) hok hchar hk hq hs hline hlen hroom
    rw [← hqueue] at hstored
    refine ⟨hstored, (deliversAll_iff t edit hstored hcb').2 ⟨?_, hstored.pos ▸ hsmall⟩⟩
    intro u hu
    rcases List.mem_append.1 hu with hu | hu
    · exact hus u hu
    · rw [List.mem_singleton.1 hu]
      exact ⟨hline, hpayload⟩
  · apply Classical.byContradiction
    intro hle
    obtain ⟨hroom, hline, -⟩ := h (Nat.not_lt.1 hle)
    have hkept := rxBytes_stored (t := t) hok hchar hk hq hs hline hlen hroom
    rw [← hqueue] at hkept
    exact hstored.not_concat hkept

end

/-- A client with a URC callback that has received the URC line `+A`, for a URC buffer of `m` bytes. -/
def receivedLine (m : Nat) : AtState :=
  ⟨{ uCxAtClientInit false 8 (List.replicate m 0) with urcCallback := true, rxBuffer := text "+A" },
    ⟨fun _ _ => 0, fun _ => 0⟩, (0, 0)⟩

theorem stored_receivedLine (m : Nat) : Stored (receivedLine m).client.urcQueue [] :=
  ⟨⟨_, rfl⟩, rfl, rfl, rfl, ⟨rfl, rfl⟩, ⟨rfl, rfl⟩⟩

/-- With enough room a payload of 3 bytes is kept. -/
theorem urc_dropped_for_room_three : DroppedForRoomOnly 0 id [] ⟨text "+A", text "xyz"⟩ 25
    (handleRxCalls 0 2 (receivedLine 32) ⟨sohChar :: 0 :: 3 :: text "xyz",
      List.replicate 6 (.avail 1)⟩).1.client :=
  (urc_dropped_for_room_iff 0 id (rxOk_of_not_binary rfl rfl) rfl rfl (by decide) (stored_receivedLine 32)
    (fun _ hu => absurd hu List.not_mem_nil) (by decide) (by decide) (by decide)).2
    fun _ => ⟨by decide, by decide, by decide⟩

/-- A payload of one byte is dropped, although one byte is unused. -/
theorem urc_dropped_exact_fit : ((receivedLine 8).client.lineQueue 0).getUnusedBuf = 1 ∧
    (handleRxCalls 0 2 (receivedLine 8) ⟨[sohChar, 0, 1, ch 'x'],
      List.replicate 4 (.avail 1)⟩).2.1.rx = [] ∧
    ¬DroppedForRoomOnly 0 id [] ⟨text "+A", text "x"⟩ 1
      (handleRxCalls 0 2 (receivedLine 8) ⟨[sohChar, 0, 1, ch 'x'],
        List.replicate 4 (.avail 1)⟩).1.client := by
  refine ⟨by decide, by decide, ?_⟩
  rintro ⟨h, -⟩
  have hpos := (h (by decide)).1.pos
  revert hpos
  decide

end AtState
