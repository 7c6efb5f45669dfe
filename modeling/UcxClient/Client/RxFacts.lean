import UcxClient.Client.RxEffect

/-!
# What a read keeps

Consequences of `rxStep_effect`, each for every read:

* `RxEffect.setup`: the fields that only a call of the API changes;
* `RxEffect.ok`: the record of the transfer stays consistent (`RxOk`);
* `RxEffect.status`: without an error, an idle client keeps its status, and a client in a transfer for
  which somebody waits has it untouched;
* `RxEffect.queueMutex`: `queueMutex` is locked exactly while the payload of a URC is received;
* `RxEffect.mem`: the callers' memory changes only where a response is received.
-/

open UrcQueue

/-- The fields of a client that only a call of the API changes. -/
structure Setup where
  rxBufferLen : Nat
  executingCmd : Bool
  opened : Bool
  cmdStartTime : Int
  cmdTimeout : Int
  cmdTimeoutLastPerm : Int
  pExpectedRsp : Option (List UInt8)
  urcCallback : Bool
  rspBinaryBuf : BinaryResponseBuf
  cmdMutex : Mutex

def AtClient.setup (c : AtClient) : Setup :=
  ⟨c.rxBufferLen, c.executingCmd, c.opened, c.cmdStartTime, c.cmdTimeout, c.cmdTimeoutLastPerm,
    c.pExpectedRsp, c.urcCallback, c.rspBinaryBuf, c.cmdMutex⟩

namespace AtClient

/-- The payload of a transfer of kind `st` is being received. -/
def Receiving (c : AtClient) (st : BinaryState) : Prop :=
  c.isBinaryRx = true ∧ 2 ≤ c.binaryRx.rxHeaderCount ∧ c.binaryRx.state = st

instance (c : AtClient) (st : BinaryState) : Decidable (c.Receiving st) :=
  inferInstanceAs (Decidable (_ ∧ _ ∧ _))

theorem parseLine_setup {t : Nat} {c c' : AtClient} {pLine : List UInt8} {ret : ParserCode}
    (h : c.parseLine t pLine = (c', ret)) :
    c'.setup = c.setup ∧ c'.isBinaryRx = c.isBinaryRx ∧ c'.binaryRx = c.binaryRx := by
  rcases parseLine_cases h with ⟨-, -, st, rfl⟩ | ⟨-, -, p, rfl⟩ | ⟨-, -, rfl⟩ | ⟨-, rfl⟩ | ⟨-, -, rfl⟩ <;>
    exact ⟨rfl, rfl, rfl⟩

end AtClient

namespace AtState

open AtClient

/-! ## Transfers -/

section
variable (t : Nat) (s : AtState)

theorem setupBinaryTransfer_setup (ret : ParserCode) (n : Nat) :
    (setupBinaryTransfer t s ret n).client.setup = s.client.setup := by
  cases ret with
  | gotUrc =>
    simp only [setupBinaryTransfer]
    split <;> rfl
  | _ => rfl

theorem setupBinaryTransfer_client (ret : ParserCode) (n : Nat) :
    (setupBinaryTransfer t s ret n).client.isBinaryRx = s.client.isBinaryRx ∧
    (setupBinaryTransfer t s ret n).client.binaryRx.rxHeaderCount = s.client.binaryRx.rxHeaderCount ∧
    (setupBinaryTransfer t s ret n).client.binaryRx.remainingDataBytes = n ∧
    (setupBinaryTransfer t s ret n).client.status = s.client.status := by
  cases ret with
  | gotUrc =>
    simp only [setupBinaryTransfer]
    split <;> exact ⟨rfl, rfl, rfl, rfl⟩
  | _ => exact ⟨rfl, rfl, rfl, rfl⟩

theorem binaryRxDone_setup : (s.binaryRxDone t).1.client.setup = s.client.setup := by
  simp only [binaryRxDone]
  split <;> rfl

theorem binaryRxDone_client : (s.binaryRxDone t).1.client.isBinaryRx = false ∧
    (s.binaryRxDone t).1.client.status = s.client.status := by
  simp only [binaryRxDone]
  split <;> exact ⟨rfl, rfl⟩

theorem binaryRxNext_setup : (s.binaryRxNext t).1.client.setup = s.client.setup := by
  unfold binaryRxNext
  split
  · rfl
  · exact s.binaryRxDone_setup t

theorem binaryRxNext_status : (s.binaryRxNext t).1.client.status = s.client.status := by
  unfold binaryRxNext
  split
  · rfl
  · exact (s.binaryRxDone_client t).2

theorem takePayload_setup (bytes : List UInt8) : (s.takePayload bytes).client.setup = s.client.setup := by
  simp only [takePayload, storePayload]
  split
  · split <;> rfl
  · rfl

theorem takePayload_client (bytes : List UInt8) :
    (s.takePayload bytes).client.status = s.client.status ∧
    (s.takePayload bytes).client.isBinaryRx = s.client.isBinaryRx ∧
    (s.takePayload bytes).client.binaryRx.rxHeaderCount = s.client.binaryRx.rxHeaderCount ∧
    (s.takePayload bytes).client.binaryRx.state = s.client.binaryRx.state ∧
    (s.takePayload bytes).client.binaryRx.pBuffer = s.client.binaryRx.pBuffer ∧
    (s.takePayload bytes).client.urcQueue.queueMutex = s.client.urcQueue.queueMutex := by
  simp only [takePayload, storePayload, BinaryRx.advance]
  split
  · split <;> exact ⟨rfl, rfl, rfl, rfl, rfl, rfl⟩
  · exact ⟨rfl, rfl, rfl, rfl, rfl, rfl⟩

/-- Bytes of a payload change only the record of the transfer, the queue and the callers' memory. -/
theorem takePayload_client_eq (bytes : List UInt8) : ∃ binaryRx urcQueue,
    (s.takePayload bytes).client = { s.client with binaryRx, urcQueue } := by
  simp only [takePayload, storePayload]
  split
  · split <;> exact ⟨_, _, rfl⟩
  · exact ⟨_, _, rfl⟩

theorem takePayload_remaining (bytes : List UInt8) :
    (s.takePayload bytes).client.binaryRx.remainingDataBytes =
      s.client.binaryRx.remainingDataBytes - bytes.length := by
  simp only [takePayload, storePayload, BinaryRx.advance]
  split
  · split <;> rfl
  · rfl

theorem takePayload_entry (bytes : List UInt8) :
    (s.takePayload bytes).client.urcQueue.pEnqueueEntry = s.client.urcQueue.pEnqueueEntry := by
  simp only [takePayload, storePayload]
  split
  · split <;> rfl
  · rfl

/-- The start of a transfer, from the outcome of parsing its line. -/
theorem startTransfer_eq {c : AtClient} {ret : ParserCode}
    (h : s.client.parseLine t s.client.rxBuffer = (c, ret)) :
    ∃ n, s.lengthBuf.1.toNat * 256 + s.lengthBuf.2.toNat = n ∧ s.startTransfer t = binaryRxNext t
      { setupBinaryTransfer t { s with client := c } ret n with
        client := { (setupBinaryTransfer t { s with client := c } ret n).client with
          rxBuffer := [] } } := by
  refine ⟨_, rfl, ?_⟩
  simp only [startTransfer, h]

theorem startTransfer_setup : (s.startTransfer t).1.client.setup = s.client.setup := by
  rcases h : s.client.parseLine t s.client.rxBuffer with ⟨c, ret⟩
  obtain ⟨n, -, hn⟩ := s.startTransfer_eq t h
  rw [hn]
  exact (binaryRxNext_setup t _).trans
    ((setupBinaryTransfer_setup t { s with client := c } ret n).trans (parseLine_setup h).1)

end

/-! ## One read -/

section
variable {t : Nat} {s s' : AtState} {r : ReadStatus} {ret : Option ParserCode}

theorem RxEffect.setup (h : RxEffect t s r s' ret) : s'.client.setup = s.client.setup := by
  cases h with
  | failed err => rfl
  | quiet => rfl
  | line _ _ hp =>
    refine .trans ?_ (parseLine_setup hp).1
    unfold lineDone
    split <;> rfl
  | header => rfl
  | start => exact startTransfer_setup t (s.storeHeader _)
  | stalled => exact takePayload_setup s []
  | payload => exact (binaryRxNext_setup t _).trans (takePayload_setup s _)

/-! ## The record of the transfer -/

theorem setupBinaryTransfer_state (t : Nat) (s : AtState) (ret : ParserCode) (n : Nat) :
    (ret = .gotRsp ∧ (setupBinaryTransfer t s ret n).client.binaryRx.state = .rsp ∧
      (setupBinaryTransfer t s ret n).client.urcQueue = s.client.urcQueue) ∨
    (ret = .gotUrc ∧ (setupBinaryTransfer t s ret n).client.binaryRx.state = .urc ∧
      (setupBinaryTransfer t s ret n).client.urcQueue = s.client.urcQueue) ∨
    (ret = .gotUrc ∧ (setupBinaryTransfer t s ret n).client.binaryRx.state = .flush ∧
      (setupBinaryTransfer t s ret n).client.urcQueue =
        uCxAtUrcQueueEnqueueAbort t s.client.urcQueue) ∨
    (ret ≠ .gotRsp ∧ ret ≠ .gotUrc ∧
      (setupBinaryTransfer t s ret n).client.binaryRx.state = .flush ∧
      (setupBinaryTransfer t s ret n).client.urcQueue = s.client.urcQueue) := by
  cases ret with
  | gotRsp => exact .inl ⟨rfl, rfl, rfl⟩
  | gotUrc =>
    dsimp only [setupBinaryTransfer]
    split
    · exact .inr (.inl ⟨rfl, rfl, rfl⟩)
    · exact .inr (.inr (.inl ⟨rfl, rfl, rfl⟩))
  | _ => exact .inr (.inr (.inr ⟨nofun, nofun, rfl, rfl⟩))

theorem binaryRxNext_cases (t : Nat) (s : AtState) :
    (0 < s.client.binaryRx.remainingDataBytes ∧ s.binaryRxNext t = (s, none)) ∨
    (s.client.binaryRx.remainingDataBytes = 0 ∧
      s.binaryRxNext t = ((s.binaryRxDone t).1, some (s.binaryRxDone t).2)) := by
  unfold binaryRxNext
  split
  · exact .inl ⟨‹_›, rfl⟩
  · exact .inr ⟨by omega, rfl⟩

/-- A transfer that goes on is of the kind it was. -/
theorem binaryRxNext_receiving {t : Nat} {s : AtState} {st : BinaryState}
    (h : (s.binaryRxNext t).1.client.Receiving st) :
    s.binaryRxNext t = (s, none) ∧ s.client.Receiving st := by
  rcases s.binaryRxNext_cases t with ⟨-, heq⟩ | ⟨-, heq⟩
  · rw [heq] at h
    exact ⟨heq, h⟩
  · rw [heq] at h
    exact absurd h.1 (by simp [(s.binaryRxDone_client t).1])

/-- A transfer that has begun is recorded as one. -/
structure RxOk (c : AtClient) : Prop where
  idle : c.isBinaryRx = false → c.binaryRx.rxHeaderCount = 0
  pending : c.isBinaryRx = true → 2 ≤ c.binaryRx.rxHeaderCount → 0 < c.binaryRx.remainingDataBytes
  urc : c.Receiving .urc → ∃ off, c.binaryRx.pBuffer = .urcBuffer off
  flush : c.Receiving .flush → c.binaryRx.bufferSize ≤ c.binaryRx.bufferPos

theorem RxOk.congr {c c' : AtClient} (h : RxOk c) (h1 : c'.isBinaryRx = c.isBinaryRx)
    (h2 : c'.binaryRx = c.binaryRx) : RxOk c' := by
  have hr : ∀ st, c'.Receiving st → c.Receiving st := fun st hr => ⟨h1 ▸ hr.1, h2 ▸ hr.2.1, h2 ▸ hr.2.2⟩
  refine ⟨fun h0 => ?_, fun h0 hc => ?_, fun h0 => ?_, fun h0 => ?_⟩
  · rw [h2]; exact h.idle (h1 ▸ h0)
  · rw [h2] at hc ⊢; exact h.pending (h1 ▸ h0) hc
  · rw [h2]; exact h.urc (hr _ h0)
  · rw [h2]; exact h.flush (hr _ h0)

theorem rxOk_of_not_binary {c : AtClient} (h1 : c.isBinaryRx = false)
    (h2 : c.binaryRx.rxHeaderCount = 0) : RxOk c where
  idle := fun _ => h2
  pending := fun h => by simp [h1] at h
  urc := fun h => by simp [h1, Receiving] at h
  flush := fun h => by simp [h1, Receiving] at h

theorem binaryRxDone_ok (t : Nat) (s : AtState) : RxOk (s.binaryRxDone t).1.client := by
  refine rxOk_of_not_binary (s.binaryRxDone_client t).1 ?_
  simp only [binaryRxDone]
  split <;> rfl

theorem binaryRxNext_ok {t : Nat} {s : AtState}
    (h : 0 < s.client.binaryRx.remainingDataBytes → RxOk s.client) :
    RxOk (s.binaryRxNext t).1.client := by
  rcases s.binaryRxNext_cases t with ⟨hpos, heq⟩ | ⟨-, heq⟩
  · rw [heq]; exact h hpos
  · rw [heq]; exact s.binaryRxDone_ok t

theorem setupBinaryTransfer_ok (t : Nat) (s : AtState) (ret : ParserCode) (n : Nat)
    (hbin : s.client.isBinaryRx = true)
    (hn : 0 < (setupBinaryTransfer t s ret n).client.binaryRx.remainingDataBytes) :
    RxOk { (setupBinaryTransfer t s ret n).client with rxBuffer := [] } := by
  obtain ⟨h1, h2, -⟩ := setupBinaryTransfer_client t s ret n
  refine ⟨fun h => ?_, fun _ _ => hn, fun h => ?_, fun h => ?_⟩
  · simp only [h1, hbin] at h; cases h
  · cases ret with
    | gotUrc =>
      revert h
      dsimp only [setupBinaryTransfer]
      split
      · exact fun _ => ⟨_, rfl⟩
      · exact fun h => nomatch h.2.2
    | _ => exact nomatch h.2.2
  · cases ret with
    | gotRsp => exact nomatch h.2.2
    | gotUrc =>
      revert h
      dsimp only [setupBinaryTransfer]
      split
      · exact fun h => nomatch h.2.2
      · exact fun _ => Nat.le_refl 0
    | _ => exact Nat.le_refl 0

theorem takePayload_ok {s : AtState} {bytes : List UInt8} (hok : RxOk s.client)
    (hn : 0 < (s.takePayload bytes).client.binaryRx.remainingDataBytes) :
    RxOk (s.takePayload bytes).client := by
  obtain ⟨-, hbin, hc, hst, hbuf, -⟩ := s.takePayload_client bytes
  refine ⟨fun h => ?_, fun _ _ => hn, fun h => ?_, fun h => ?_⟩
  · rw [hc]; exact hok.idle (hbin ▸ h)
  · rw [hbuf]
    exact hok.urc ⟨hbin ▸ h.1, hc ▸ h.2.1, hst ▸ h.2.2⟩
  · have hf := hok.flush ⟨hbin ▸ h.1, hc ▸ h.2.1, hst ▸ h.2.2⟩
    have hrem : ¬0 < s.remainingBuf := by unfold remainingBuf; omega
    simpa [takePayload, hrem, BinaryRx.advance] using hf

theorem RxEffect.ok (h : RxEffect t s r s' ret) (hok : RxOk s.client) : RxOk s'.client := by
  cases h with
  | failed err => exact ⟨hok.1, hok.2, hok.3, hok.4⟩
  | quiet hbin _ =>
    have h0 := hok.idle hbin
    refine ⟨fun _ => h0, fun _ h2 => ?_, fun h2 => ?_, fun h2 => ?_⟩
    · simp only at h2; omega
    · have := h2.2.1; simp only at this; omega
    · have := h2.2.1; simp only at this; omega
  | line hbin _ hp =>
    obtain ⟨-, h1, h2⟩ := parseLine_setup hp
    exact rxOk_of_not_binary (by simp [h1, hbin]) (by simp [h2, hok.idle hbin])
  | header hbin hlt =>
    refine ⟨fun h => ?_, fun _ h2 => ?_, fun h2 => ?_, fun h2 => ?_⟩
    · simp [storeHeader, hbin] at h
    · simp only [storeHeader] at h2; omega
    · have := h2.2.1; simp only [storeHeader] at this; omega
    · have := h2.2.1; simp only [storeHeader] at this; omega
  | @start bytes hbin hcount hge =>
    rcases hp : (s.storeHeader bytes).client.parseLine t (s.storeHeader bytes).client.rxBuffer
      with ⟨c, code⟩
    obtain ⟨n, -, hn⟩ := (s.storeHeader bytes).startTransfer_eq t hp
    obtain ⟨-, hb, -⟩ := parseLine_setup hp
    rw [hn]
    exact binaryRxNext_ok (setupBinaryTransfer_ok t { s.storeHeader bytes with client := c } code n
      (hb.trans hbin))
  | stalled hbin hge =>
    exact takePayload_ok hok (by rw [takePayload_remaining]; exact hok.pending hbin hge)
  | payload hne hbin hge => exact binaryRxNext_ok (takePayload_ok hok)

/-! ## The status -/

theorem RxEffect.status (h : RxEffect t s r s' ret) :
    s'.client.status = s.client.status ∨ (∃ err, r = .failed err) ∨
    (s.client.executingCmd = true ∧ ∀ st, s'.client.Receiving st → st = .flush) := by
  cases h with
  | failed err => exact .inr (.inl ⟨err, rfl⟩)
  | quiet => exact .inl rfl
  | line hbin _ hp =>
    rcases parseLine_cases hp with ⟨rfl, hx, v, rfl⟩ | ⟨rfl, hx, p, rfl⟩ | ⟨rfl, -, rfl⟩ |
      ⟨rfl, rfl⟩ | ⟨rfl, -, rfl⟩
    · refine .inr (.inr ⟨hx, fun st hr => ?_⟩)
      exact absurd hr.1 (by simp [lineDone, hbin])
    all_goals exact .inl rfl
  | header => exact .inl rfl
  | @start bytes _ _ _ =>
    rcases hp : (s.storeHeader bytes).client.parseLine t (s.storeHeader bytes).client.rxBuffer
      with ⟨c, code⟩
    obtain ⟨n, -, hn⟩ := (s.storeHeader bytes).startTransfer_eq t hp
    rw [hn, binaryRxNext_status]
    simp only [(setupBinaryTransfer_client t _ _ _).2.2.2]
    rcases parseLine_cases hp with ⟨rfl, hx, v, rfl⟩ | ⟨rfl, hx, p, rfl⟩ | ⟨rfl, -, rfl⟩ |
      ⟨rfl, rfl⟩ | ⟨rfl, -, rfl⟩
    · exact .inr (.inr ⟨hx, fun st hr => (binaryRxNext_receiving hr).2.2.2.symm⟩)
    all_goals exact .inl rfl
  | stalled => exact .inl (takePayload_client s []).1
  | payload => exact .inl (by rw [binaryRxNext_status, (takePayload_client s _).1])

/-- A payload that is being received is of the kind it was, or has just begun. -/
theorem RxEffect.same_kind (h : RxEffect t s r s' ret) {st st' : BinaryState}
    (hs : s.client.Receiving st) (hs' : s'.client.Receiving st') : st = st' := by
  cases h with
  | failed err => exact hs.2.2.symm.trans hs'.2.2
  | quiet hbin => rw [hs.1] at hbin; cases hbin
  | line hbin => rw [hs.1] at hbin; cases hbin
  | header hbin hlt => have := hs.2.1; omega
  | start hbin hcount => have := hs.2.1; omega
  | stalled hbin hge =>
    obtain ⟨-, -, -, h3, -⟩ := s.takePayload_client []
    exact hs.2.2.symm.trans (h3.symm.trans hs'.2.2)
  | @payload bytes hne hbin hge =>
    obtain ⟨-, -, -, h3, -⟩ := s.takePayload_client bytes
    exact hs.2.2.symm.trans (h3.symm.trans (binaryRxNext_receiving hs').2.2.2)

/-- `handleRxData` returns inside a payload only from a read that brought nothing. -/
theorem RxEffect.returned (h : RxEffect t s r s' ret) (hok : RxOk s.client) (hret : ret ≠ none)
    {st : BinaryState} (hs' : s'.client.Receiving st) :
    s.client.Receiving st ∧ (r = .got [] ∨ ∃ err, r = .failed err) := by
  cases h with
  | failed err => exact ⟨hs', .inr ⟨err, rfl⟩⟩
  | quiet hbin =>
    have := hs'.2.1
    simp [hok.idle hbin] at this
  | line hbin _ hp =>
    have := hs'.1
    simp [(parseLine_setup hp).2.1, hbin] at this
  | header hbin hlt =>
    have := hs'.2.1
    simp only [storeHeader] at this
    omega
  | @start bytes hbin hcount hge =>
    rcases hp : (s.storeHeader bytes).client.parseLine t (s.storeHeader bytes).client.rxBuffer
      with ⟨c, code⟩
    obtain ⟨n, -, hn⟩ := (s.storeHeader bytes).startTransfer_eq t hp
    rw [hn] at hs' hret
    rw [(binaryRxNext_receiving hs').1] at hret
    exact absurd rfl hret
  | stalled hbin hge =>
    obtain ⟨-, h1, h2, h3, -⟩ := s.takePayload_client []
    exact ⟨⟨hbin, hge, h3 ▸ hs'.2.2⟩, .inl rfl⟩
  | payload hne hbin hge =>
    rw [(binaryRxNext_receiving hs').1] at hret
    exact absurd rfl hret

/-- As long as `handleRxData` does not return, a payload goes on, and a status is recorded only by
the line of a transfer that is discarded. -/
theorem RxEffect.more (h : RxEffect t s r s' none) :
    (s'.client.status = s.client.status ∨ s'.client.Receiving .flush) ∧
    ∀ st, s.client.Receiving st → s'.client.Receiving st := by
  generalize hret : (none : Option ParserCode) = ret at h
  cases h with
  | failed err => cases hret
  | quiet hbin => exact ⟨.inl rfl, fun st hs => by rw [hs.1] at hbin; cases hbin⟩
  | @line b c code hbin _ hp =>
    refine ⟨?_, fun st hs => by rw [hs.1] at hbin; cases hbin⟩
    rcases parseLine_cases hp with ⟨rfl, -⟩ | ⟨rfl, -⟩ | ⟨rfl, -, rfl⟩ | ⟨rfl, rfl⟩ | ⟨rfl, -, rfl⟩
    · cases hret
    · cases hret
    all_goals exact .inl (by simp)
  | header => cases hret
  | @start bytes hbin hcount hge =>
    refine ⟨?_, fun st hs => by have := hs.2.1; omega⟩
    rcases hp : (s.storeHeader bytes).client.parseLine t (s.storeHeader bytes).client.rxBuffer
      with ⟨c, code⟩
    obtain ⟨n, -, hn⟩ := (s.storeHeader bytes).startTransfer_eq t hp
    obtain ⟨-, hb, hcn⟩ := parseLine_setup hp
    obtain ⟨hb1, hc1, -, hst1⟩ :=
      setupBinaryTransfer_client t { s.storeHeader bytes with client := c } code n
    rw [hn] at hret ⊢
    rcases binaryRxNext_cases t _ with ⟨-, heq⟩ | ⟨-, heq⟩
    · rw [heq]
      rcases parseLine_cases hp with ⟨rfl, -⟩ | ⟨rfl, -, p, rfl⟩ | ⟨rfl, -, rfl⟩ | ⟨rfl, rfl⟩ |
        ⟨rfl, -, rfl⟩
      · exact .inr ⟨hb1.trans (hb.trans hbin), by simp only [hc1, hcn]; exact hge, rfl⟩
      all_goals exact .inl hst1
    · rw [heq] at hret; cases hret
  | stalled => cases hret
  | @payload bytes hne hbin hge =>
    obtain ⟨h0, h1, h2, h3, -⟩ := s.takePayload_client bytes
    rcases (s.takePayload bytes).binaryRxNext_cases t with ⟨-, heq⟩ | ⟨-, heq⟩
    · rw [heq]
      exact ⟨.inl h0, fun st hs => ⟨h1.trans hbin, h2 ▸ hge, h3.trans hs.2.2⟩⟩
    · rw [heq] at hret; cases hret

/-! ## The lock of the URC queue -/

theorem binaryRxDone_queueMutex (t : Nat) (s : AtState) :
    (s.binaryRxDone t).1.client.urcQueue.queueMutex =
      if s.client.binaryRx.state = .urc then s.client.urcQueue.queueMutex.unlock t
      else s.client.urcQueue.queueMutex := by
  simp only [binaryRxDone]
  split <;> simp_all

theorem parseLine_queueMutex {t : Nat} {c c' : AtClient} {pLine : List UInt8} {ret : ParserCode}
    (h : c.parseLine t pLine = (c', ret)) :
    (ret = .gotUrc ∧ c'.urcQueue.queueMutex = c.urcQueue.queueMutex.lock t) ∨
    (ret ≠ .gotUrc ∧ (c'.urcQueue.queueMutex = c.urcQueue.queueMutex ∨
      c'.urcQueue.queueMutex = (c.urcQueue.queueMutex.lock t).unlock t)) := by
  rcases parseLine_cases h with ⟨rfl, -, v, rfl⟩ | ⟨rfl, -, p, rfl⟩ | ⟨rfl, hq, rfl⟩ | ⟨rfl, rfl⟩ |
    ⟨rfl, hq, rfl⟩
  · exact .inr ⟨nofun, .inl rfl⟩
  · exact .inr ⟨nofun, .inl rfl⟩
  · exact .inl ⟨rfl, by simp [queueMutex_enqueueBegin, hq]⟩
  · exact .inr ⟨nofun, .inl rfl⟩
  · exact .inr ⟨nofun, .inr (by simp [queueMutex_enqueueBegin, hq])⟩

/-- What a transfer does to `queueMutex` where it ends or goes on. -/
theorem binaryRxNext_queueMutex (t : Nat) (s : AtState) (hbin : s.client.isBinaryRx = true)
    (hc : 2 ≤ s.client.binaryRx.rxHeaderCount) :
    (s.client.binaryRx.state = .urc ∧
      (((s.binaryRxNext t).1.client.urcQueue.queueMutex = s.client.urcQueue.queueMutex ∧
        (s.binaryRxNext t).1.client.Receiving .urc) ∨
      ((s.binaryRxNext t).1.client.urcQueue.queueMutex = s.client.urcQueue.queueMutex.unlock t ∧
        ¬(s.binaryRxNext t).1.client.Receiving .urc))) ∨
    (s.client.binaryRx.state ≠ .urc ∧
      (s.binaryRxNext t).1.client.urcQueue.queueMutex = s.client.urcQueue.queueMutex ∧
      ¬(s.binaryRxNext t).1.client.Receiving .urc) := by
  have hdone : ¬(s.binaryRxDone t).1.client.Receiving .urc := fun h => by
    have := h.1
    simp [(s.binaryRxDone_client t).1] at this
  rcases s.binaryRxNext_cases t with ⟨-, heq⟩ | ⟨-, heq⟩
  · rw [heq]
    by_cases hst : s.client.binaryRx.state = .urc
    · exact .inl ⟨hst, .inl ⟨rfl, hbin, hc, hst⟩⟩
    · exact .inr ⟨hst, rfl, fun h => hst h.2.2⟩
  · rw [heq]
    by_cases hst : s.client.binaryRx.state = .urc
    · exact .inl ⟨hst, .inr ⟨by rw [binaryRxDone_queueMutex, if_pos hst], hdone⟩⟩
    · exact .inr ⟨hst, by rw [binaryRxDone_queueMutex, if_neg hst], hdone⟩

/-- What the start of a transfer does to `queueMutex`. -/
theorem startTransfer_queueMutex (t : Nat) (s : AtState) (hbin : s.client.isBinaryRx = true)
    (hc : 2 ≤ s.client.binaryRx.rxHeaderCount) :
    ((s.startTransfer t).1.client.urcQueue.queueMutex = s.client.urcQueue.queueMutex ∧
      ¬(s.startTransfer t).1.client.Receiving .urc) ∨
    ((s.startTransfer t).1.client.urcQueue.queueMutex = s.client.urcQueue.queueMutex.lock t ∧
      (s.startTransfer t).1.client.Receiving .urc) ∨
    ((s.startTransfer t).1.client.urcQueue.queueMutex =
        (s.client.urcQueue.queueMutex.lock t).unlock t ∧
      ¬(s.startTransfer t).1.client.Receiving .urc) := by
  rcases hp : s.client.parseLine t s.client.rxBuffer with ⟨c, ret⟩
  obtain ⟨n, -, hn⟩ := s.startTransfer_eq t hp
  obtain ⟨-, hb, hcn⟩ := parseLine_setup hp
  obtain ⟨hb1, hc1, -⟩ := setupBinaryTransfer_client t { s with client := c } ret n
  obtain ⟨s2, hs2, hb2, hc2, hst2, hq2⟩ : ∃ s2, s.startTransfer t = binaryRxNext t s2 ∧
      s2.client.isBinaryRx = true ∧ 2 ≤ s2.client.binaryRx.rxHeaderCount ∧
      s2.client.binaryRx.state =
        (setupBinaryTransfer t { s with client := c } ret n).client.binaryRx.state ∧
      s2.client.urcQueue = (setupBinaryTransfer t { s with client := c } ret n).client.urcQueue :=
    ⟨_, hn, hb1.trans (hb.trans hbin), by simp only [hc1, hcn, hc], rfl, rfl⟩
  have hnext := binaryRxNext_queueMutex t s2 hb2 hc2
  rw [hs2]
  rw [hst2, hq2] at hnext
  have hm := parseLine_queueMutex hp
  rcases setupBinaryTransfer_state t { s with client := c } ret n with
    ⟨rfl, hst, hq⟩ | ⟨rfl, hst, hq⟩ | ⟨rfl, hst, hq⟩ | ⟨-, h2, hst, hq⟩
  · rcases hnext with ⟨h, -⟩ | ⟨-, h⟩
    · rw [hst] at h; cases h
    · rw [hq] at h
      rcases hm with ⟨hu, -⟩ | ⟨-, hm | hm⟩
      · cases hu
      · exact .inl ⟨h.1.trans hm, h.2⟩
      · exact .inr (.inr ⟨h.1.trans hm, h.2⟩)
  · rcases hm with ⟨-, hm⟩ | ⟨hu, -⟩
    · rcases hnext with ⟨-, h⟩ | ⟨h, -⟩
      · rw [hq, hm] at h
        exact .inr h
      · exact absurd hst h
    · exact absurd rfl hu
  · rcases hm with ⟨-, hm⟩ | ⟨hu, -⟩
    · rcases hnext with ⟨h, -⟩ | ⟨-, h⟩
      · rw [hst] at h; cases h
      · rw [hq, queueMutex_enqueueAbort, hm] at h
        exact .inr (.inr h)
    · exact absurd rfl hu
  · rcases hnext with ⟨h, -⟩ | ⟨-, h⟩
    · rw [hst] at h; cases h
    · rw [hq] at h
      rcases hm with ⟨hu, -⟩ | ⟨-, hm | hm⟩
      · exact absurd hu h2
      · exact .inl ⟨h.1.trans hm, h.2⟩
      · exact .inr (.inr ⟨h.1.trans hm, h.2⟩)

/-- `queueMutex` is taken when the payload of a URC begins and released when it ends. -/
theorem RxEffect.queueMutex (h : RxEffect t s r s' ret) (hok : RxOk s.client) :
    (s.client.Receiving .urc →
      (s'.client.urcQueue.queueMutex = s.client.urcQueue.queueMutex ∧ s'.client.Receiving .urc) ∨
      (s'.client.urcQueue.queueMutex = s.client.urcQueue.queueMutex.unlock t ∧
        ¬s'.client.Receiving .urc)) ∧
    (¬s.client.Receiving .urc →
      (s'.client.urcQueue.queueMutex = s.client.urcQueue.queueMutex ∧ ¬s'.client.Receiving .urc) ∨
      (s'.client.urcQueue.queueMutex = s.client.urcQueue.queueMutex.lock t ∧
        s'.client.Receiving .urc) ∨
      (s'.client.urcQueue.queueMutex = (s.client.urcQueue.queueMutex.lock t).unlock t ∧
        ¬s'.client.Receiving .urc)) := by
  cases h with
  | failed err => exact ⟨fun hr => .inl ⟨rfl, hr⟩, fun hr => .inl ⟨rfl, hr⟩⟩
  | quiet hbin _ =>
    refine ⟨fun hr => ?_, fun _ => .inl ⟨rfl, fun hr => ?_⟩⟩
    · have := hr.1; simp [hbin] at this
    · have := hr.2.1; simp [hok.idle hbin] at this
  | @line b c code hbin _ hp =>
    obtain ⟨-, hb, -⟩ := parseLine_setup hp
    have hnr : ¬(c.lineDone t code).Receiving .urc := fun hr => by
      have := hr.1; simp [hb, hbin] at this
    refine ⟨fun hr => by have := hr.1; simp [hbin] at this, fun _ => ?_⟩
    rcases parseLine_queueMutex hp with ⟨rfl, hm⟩ | ⟨hu, hm | hm⟩
    · exact .inr (.inr ⟨by simp [lineDone, hm], hnr⟩)
    · exact .inl ⟨by simp [lineDone, hu, hm], hnr⟩
    · exact .inr (.inr ⟨by simp [lineDone, hu, hm], hnr⟩)
  | header hbin hlt =>
    refine ⟨fun hr => ?_, fun _ => .inl ⟨rfl, fun hr => ?_⟩⟩
    · have := hr.2.1; omega
    · have := hr.2.1; simp only [storeHeader] at this; omega
  | @start bytes hbin hcount hge =>
    refine ⟨fun hr => by have := hr.2.1; omega, fun _ => ?_⟩
    exact startTransfer_queueMutex t (s.storeHeader bytes) hbin hge
  | stalled hbin hge =>
    obtain ⟨-, h1, h2, h3, -, h5⟩ := s.takePayload_client []
    have hiff : (s.takePayload []).client.Receiving .urc ↔ s.client.Receiving .urc := by
      unfold Receiving; rw [h1, h2, h3]
    exact ⟨fun hr => .inl ⟨h5, hiff.2 hr⟩, fun hr => .inl ⟨h5, mt hiff.1 hr⟩⟩
  | @payload bytes hne hbin hge =>
    obtain ⟨-, h1, h2, h3, -, h5⟩ := s.takePayload_client bytes
    have hnext := binaryRxNext_queueMutex t (s.takePayload bytes) (h1.trans hbin) (by rw [h2]; exact hge)
    rw [h3, h5] at hnext
    rcases hnext with ⟨hst, h⟩ | ⟨hst, h⟩
    · exact ⟨fun _ => h, fun hr => absurd ⟨hbin, hge, hst⟩ hr⟩
    · exact ⟨fun hr => absurd hr.2.2 hst, fun _ => .inl h⟩

/-! ## The open enqueue -/

theorem parseLine_entry {t : Nat} {c c' : AtClient} {pLine : List UInt8} {ret : ParserCode}
    (h : c.parseLine t pLine = (c', ret)) (hret : ret ≠ .gotUrc) :
    c'.urcQueue.pEnqueueEntry = c.urcQueue.pEnqueueEntry := by
  rcases parseLine_cases h with ⟨-, -, v, rfl⟩ | ⟨-, -, p, rfl⟩ | ⟨rfl, -⟩ | ⟨-, rfl⟩ | ⟨-, hq, rfl⟩
  · rfl
  · rfl
  · exact absurd rfl hret
  · rfl
  · exact pEnqueueEntry_refused hq

theorem binaryRxNext_entry {t : Nat} {s : AtState} (hbin : s.client.isBinaryRx = true)
    (hc : 2 ≤ s.client.binaryRx.rxHeaderCount)
    (h : s.client.binaryRx.state ≠ .urc → s.client.urcQueue.pEnqueueEntry = none)
    (hr : ¬(s.binaryRxNext t).1.client.Receiving .urc) :
    (s.binaryRxNext t).1.client.urcQueue.pEnqueueEntry = none := by
  rcases s.binaryRxNext_cases t with ⟨-, heq⟩ | ⟨-, heq⟩
  · rw [heq] at hr ⊢
    exact h fun hst => hr ⟨hbin, hc, hst⟩
  · rw [heq]
    unfold binaryRxDone
    cases hst : s.client.binaryRx.state with
    | urc => simp [hst, uCxAtUrcQueueEnqueueEnd]
    | _ => simpa [hst] using h (by simp [hst])

/-- No enqueue stays open but that of a URC whose payload is received. -/
theorem RxEffect.entry (h : RxEffect t s r s' ret)
    (hs : ¬s.client.Receiving .urc → s.client.urcQueue.pEnqueueEntry = none)
    (hr : ¬s'.client.Receiving .urc) : s'.client.urcQueue.pEnqueueEntry = none := by
  cases h with
  | failed err => exact hs hr
  | quiet hbin => exact hs fun h => by rw [h.1] at hbin; cases hbin
  | @line b c code hbin _ hp =>
    have h0 := hs fun h => by rw [h.1] at hbin; cases hbin
    by_cases hu : code = .gotUrc
    · simp [lineDone, hu, uCxAtUrcQueueEnqueueEnd]
    · simp [lineDone, hu, parseLine_entry hp hu, h0]
  | header hbin hlt => exact hs fun h => by have := h.2.1; omega
  | @start bytes hbin hcount hge =>
    have h0 := hs fun h => by have := h.2.1; omega
    rcases hp : (s.storeHeader bytes).client.parseLine t (s.storeHeader bytes).client.rxBuffer
      with ⟨c, code⟩
    obtain ⟨n, -, hn⟩ := (s.storeHeader bytes).startTransfer_eq t hp
    obtain ⟨-, hb, hcn⟩ := parseLine_setup hp
    obtain ⟨hb1, hc1, -⟩ :=
      setupBinaryTransfer_client t { s.storeHeader bytes with client := c } code n
    rw [hn] at hr ⊢
    refine binaryRxNext_entry (hb1.trans (hb.trans hbin)) (by simp only [hc1, hcn]; exact hge)
      (fun hst => ?_) hr
    rcases setupBinaryTransfer_state t { s.storeHeader bytes with client := c } code n with
      ⟨rfl, -, hq⟩ | ⟨-, hst', -⟩ | ⟨-, -, hq⟩ | ⟨-, h2, -, hq⟩
    · simp only [hq]
      exact (parseLine_entry hp (by rintro ⟨⟩)).trans h0
    · exact absurd hst' hst
    · simp [hq, uCxAtUrcQueueEnqueueAbort]
    · simp only [hq]
      exact (parseLine_entry hp h2).trans h0
  | stalled hbin hge =>
    obtain ⟨-, h1, h2, h3, -⟩ := s.takePayload_client []
    rw [takePayload_entry]
    refine hs fun h => hr ⟨h1.trans hbin, by rw [h2]; exact hge, h3.trans h.2.2⟩
  | @payload bytes hne hbin hge =>
    obtain ⟨-, h1, h2, h3, -⟩ := s.takePayload_client bytes
    refine binaryRxNext_entry (h1.trans hbin) (by rw [h2]; exact hge) (fun hst => ?_) hr
    rw [takePayload_entry]
    exact hs fun h => hst (h3.trans h.2.2)

end

/-! ## The callers' memory -/

end AtState

/-- `m'` is `m` but for the bytes of buffer `b` and length variable `v`. -/
def CallerMem.SameBut (m m' : CallerMem) (b v : Option Nat) : Prop :=
  (∀ b' i, m'.bytes b' i = m.bytes b' i ∨ b = some b') ∧
  (∀ v', m'.length v' = m.length v' ∨ v = some v')

namespace CallerMem

theorem sameBut_store (m : CallerMem) (b off : Nat) (bytes : List UInt8) (v : Option Nat) :
    m.SameBut (m.store b off bytes) (some b) v := by
  refine ⟨fun b' i => ?_, fun _ => .inl rfl⟩
  by_cases hb : b' = b
  · exact .inr (by rw [hb])
  · exact .inl (by simp [store, hb])

theorem sameBut_setLength (m : CallerMem) (b v : Option Nat) (n : Nat) :
    m.SameBut (m.setLength v n) b v := by
  refine ⟨fun _ _ => .inl rfl, fun v' => ?_⟩
  by_cases hv : v = some v'
  · exact .inr hv
  · exact .inl (by simp [setLength, hv])

theorem SameBut.trans {m m1 m2 : CallerMem} {b v : Option Nat} (h1 : m.SameBut m1 b v)
    (h2 : m1.SameBut m2 b v) : m.SameBut m2 b v := by
  refine ⟨fun b' i => ?_, fun v' => ?_⟩
  · rcases h2.1 b' i with h | h
    · exact h ▸ h1.1 b' i
    · exact .inr h
  · rcases h2.2 v' with h | h
    · exact h ▸ h1.2 v'
    · exact .inr h

theorem SameBut.refl (m : CallerMem) (b v : Option Nat) : m.SameBut m b v :=
  ⟨fun _ _ => .inl rfl, fun _ => .inl rfl⟩

theorem SameBut.eq {m m' : CallerMem} (h : m.SameBut m' none none) : m' = m := by
  obtain ⟨bytes, length⟩ := m
  obtain ⟨bytes', length'⟩ := m'
  obtain rfl : bytes' = bytes := funext fun b => funext fun i => (h.1 b i).resolve_right nofun
  obtain rfl : length' = length := funext fun v => (h.2 v).resolve_right nofun
  rfl

theorem SameBut.mono {m m' : CallerMem} {b b' v v' : Option Nat} (h : m.SameBut m' b v)
    (hb : b = none ∨ b = b') (hv : v = none ∨ v = v') : m.SameBut m' b' v' := by
  refine ⟨fun a i => ?_, fun a => ?_⟩
  · rcases h.1 a i with h | h
    · exact .inl h
    · rcases hb with rfl | rfl
      · cases h
      · exact .inr h
  · rcases h.2 a with h | h
    · exact .inl h
    · rcases hv with rfl | rfl
      · cases h
      · exact .inr h

end CallerMem

namespace AtState

open AtClient

section
variable {t : Nat} {s s' : AtState} {r : ReadStatus} {ret : Option ParserCode}

/-- The read completes the length of a transfer that belongs to a response. -/
def StartsRsp (s : AtState) (r : ReadStatus) : Prop :=
  (∃ bytes, r = .got bytes ∧ 2 ≤ s.client.binaryRx.rxHeaderCount + bytes.length) ∧
  s.client.isBinaryRx = true ∧ s.client.binaryRx.rxHeaderCount < 2 ∧
  ∃ p, s.client.bufferedKind = .rsp p

/-- The caller's buffer that the next bytes of the transfer are stored in. -/
def destBuffer (s : AtState) : Option Nat :=
  match s.client.binaryRx.pBuffer with
  | .caller b => if 0 < s.remainingBuf then some b else none
  | _ => none

theorem binaryRxDone_mem (t : Nat) (s : AtState) :
    (s.binaryRxDone t).1.mem = s.mem ∨ (s.client.binaryRx.state = .rsp ∧
      (s.binaryRxDone t).1.mem =
        s.mem.setLength s.client.rspBinaryBuf.pBufferLength s.client.binaryRx.bufferPos) := by
  unfold binaryRxDone
  cases hst : s.client.binaryRx.state with
  | rsp => exact .inr ⟨rfl, by simp [hst]⟩
  | _ => exact .inl (by simp [hst])

theorem takePayload_mem (s : AtState) (bytes : List UInt8) :
    s.mem.SameBut (s.takePayload bytes).mem s.destBuffer none := by
  by_cases hrem : 0 < s.remainingBuf
  · cases hb : s.client.binaryRx.pBuffer with
    | caller b =>
      have hd : s.destBuffer = some b := by simp [destBuffer, hb, hrem]
      rw [hd]
      simpa [takePayload, storePayload, hrem, hb] using
        s.mem.sameBut_store b s.client.binaryRx.bufferPos bytes none
    | null =>
      simpa [takePayload, storePayload, hrem, hb] using CallerMem.SameBut.refl s.mem _ none
    | urcBuffer off =>
      simpa [takePayload, storePayload, hrem, hb] using CallerMem.SameBut.refl s.mem _ none
  · simpa [takePayload, hrem] using CallerMem.SameBut.refl s.mem s.destBuffer none

/-- The length variable that the end of the transfer is reported in. -/
def lengthVar (s : AtState) : Option Nat :=
  if s.client.binaryRx.state = .rsp then s.client.rspBinaryBuf.pBufferLength else none

theorem binaryRxNext_mem (t : Nat) (s : AtState) :
    s.mem.SameBut (s.binaryRxNext t).1.mem none s.lengthVar := by
  rcases s.binaryRxNext_cases t with ⟨-, heq⟩ | ⟨-, heq⟩
  · rw [heq]; exact .refl _ _ _
  · rw [heq]
    rcases s.binaryRxDone_mem t with h | ⟨hst, h⟩
    · rw [h]; exact .refl _ _ _
    · rw [h, lengthVar, if_pos hst]
      exact s.mem.sameBut_setLength _ _ _

/-- The memory changes at the start of a transfer only if it belongs to a response. -/
theorem startTransfer_mem (t : Nat) (s : AtState) :
    (s.startTransfer t).1.mem = s.mem ∨ ((∃ p, s.client.bufferedKind = .rsp p) ∧
      s.mem.SameBut (s.startTransfer t).1.mem none s.client.rspBinaryBuf.pBufferLength) := by
  rcases hp : s.client.parseLine t s.client.rxBuffer with ⟨c, ret⟩
  obtain ⟨n, -, hn⟩ := s.startTransfer_eq t hp
  have hbuf : c.rspBinaryBuf = s.client.rspBinaryBuf :=
    congrArg Setup.rspBinaryBuf (parseLine_setup hp).1
  rw [hn]
  have hnext := binaryRxNext_mem t
    { setupBinaryTransfer t { s with client := c } ret n with
        client := { (setupBinaryTransfer t { s with client := c } ret n).client with
          rxBuffer := [] } }
  by_cases hr : ret = .gotRsp
  · subst hr
    have hk := (parseLine_gotRsp t s.client s.client.rxBuffer).1 (by rw [hp])
    refine .inr ⟨hk, ?_⟩
    rw [← hbuf]
    exact (s.mem.sameBut_setLength none c.rspBinaryBuf.pBufferLength 0).trans hnext
  · have hmem : (setupBinaryTransfer t { s with client := c } ret n).mem = s.mem ∧
        (setupBinaryTransfer t { s with client := c } ret n).client.binaryRx.state ≠ .rsp := by
      cases ret with
      | gotRsp => exact absurd rfl hr
      | gotUrc => dsimp only [setupBinaryTransfer]; split <;> exact ⟨rfl, nofun⟩
      | _ => exact ⟨rfl, nofun⟩
    left
    rcases binaryRxNext_cases t _ with ⟨-, heq⟩ | ⟨-, heq⟩
    · rw [heq]; exact hmem.1
    · rw [heq]
      rcases binaryRxDone_mem t _ with h | ⟨h, -⟩
      · rw [h]; exact hmem.1
      · exact absurd h hmem.2

theorem RxEffect.mem (h : RxEffect t s r s' ret) :
    s'.mem = s.mem ∨
    (s.client.isBinaryRx = true ∧ 2 ≤ s.client.binaryRx.rxHeaderCount ∧
      s.mem.SameBut s'.mem s.destBuffer s.lengthVar) ∨
    (s.StartsRsp r ∧ s.mem.SameBut s'.mem none s.client.rspBinaryBuf.pBufferLength) := by
  cases h with
  | failed | quiet | line | header => exact .inl rfl
  | @start bytes hbin hcount hge =>
    rcases startTransfer_mem t (s.storeHeader bytes) with h | ⟨hk, h⟩
    · exact .inl h
    · exact .inr (.inr ⟨⟨⟨bytes, rfl, hge⟩, hbin, hcount, hk⟩, h⟩)
  | stalled hbin hge =>
    exact .inr (.inl ⟨hbin, hge, (takePayload_mem s []).mono (.inr rfl) (.inl rfl)⟩)
  | @payload bytes hne hbin hge =>
    obtain ⟨-, -, -, hst, -⟩ := s.takePayload_client bytes
    have hbuf : (s.takePayload bytes).client.rspBinaryBuf = s.client.rspBinaryBuf :=
      congrArg Setup.rspBinaryBuf (s.takePayload_setup bytes)
    have hv : (s.takePayload bytes).lengthVar = s.lengthVar := by
      rw [lengthVar, lengthVar, hst, hbuf]
    have h1 : s.mem.SameBut (s.takePayload bytes).mem s.destBuffer s.lengthVar :=
      (takePayload_mem s bytes).mono (.inr rfl) (.inl rfl)
    have h2 : (s.takePayload bytes).mem.SameBut ((s.takePayload bytes).binaryRxNext t).1.mem
        s.destBuffer s.lengthVar :=
      (binaryRxNext_mem t (s.takePayload bytes)).mono (.inl rfl) (.inr hv)
    exact .inr (.inl ⟨hbin, hge, h1.trans h2⟩)

/-- Only the transfer of a response concerns the callers' memory. -/
theorem destBuffer_lengthVar {s : AtState} (hok : RxOk s.client) (hbin : s.client.isBinaryRx = true)
    (hge : 2 ≤ s.client.binaryRx.rxHeaderCount) (hst : s.client.binaryRx.state ≠ .rsp) :
    s.destBuffer = none ∧ s.lengthVar = none := by
  refine ⟨?_, if_neg hst⟩
  cases h : s.client.binaryRx.state with
  | rsp => exact absurd h hst
  | urc =>
    obtain ⟨off, hoff⟩ := hok.urc ⟨hbin, hge, h⟩
    simp [destBuffer, hoff]
  | flush =>
    have hrem : ¬0 < s.remainingBuf := by
      have := hok.flush ⟨hbin, hge, h⟩
      unfold remainingBuf
      omega
    unfold destBuffer
    split
    · exact if_neg hrem
    · rfl

/-! ## The transfer of a response -/

theorem takePayload_bufferSize (s : AtState) (bytes : List UInt8) :
    (s.takePayload bytes).client.binaryRx.bufferSize = s.client.binaryRx.bufferSize := by
  simp only [takePayload, storePayload, BinaryRx.advance]
  split
  · split <;> rfl
  · rfl

/-- A response is being received since its line was, into the buffer that was set up then. -/
theorem RxEffect.rsp (h : RxEffect t s r s' ret) (hok : RxOk s.client)
    (hr : s'.client.Receiving .rsp) :
    (s.client.Receiving .rsp ∧ s'.client.binaryRx.pBuffer = s.client.binaryRx.pBuffer ∧
      s'.client.binaryRx.bufferSize = s.client.binaryRx.bufferSize) ∨
    (s.StartsRsp r ∧
      s'.client.binaryRx.pBuffer =
        (s.client.rspBinaryBuf.pBuffer.map BinaryDest.caller).getD .null ∧
      s'.client.binaryRx.bufferSize =
        (s.client.rspBinaryBuf.pBufferLength.map s.mem.length).getD 0) := by
  cases h with
  | failed err => exact .inl ⟨hr, rfl, rfl⟩
  | quiet hbin _ =>
    have := hr.2.1
    simp [hok.idle hbin] at this
  | line hbin _ hp =>
    have := hr.1
    simp [(parseLine_setup hp).2.1, hbin] at this
  | header hbin hlt =>
    have := hr.2.1
    simp only [storeHeader] at this
    omega
  | @start bytes hbin hcount hge =>
    rcases hp : (s.storeHeader bytes).client.parseLine t (s.storeHeader bytes).client.rxBuffer
      with ⟨c, code⟩
    obtain ⟨n, -, hn⟩ := (s.storeHeader bytes).startTransfer_eq t hp
    rw [hn] at hr ⊢
    obtain ⟨heq, hr⟩ := binaryRxNext_receiving hr
    rw [heq]
    rcases setupBinaryTransfer_state t { s.storeHeader bytes with client := c } code n with
      ⟨rfl, -⟩ | ⟨-, hst, -⟩ | ⟨-, hst, -⟩ | ⟨-, -, hst, -⟩
    · have hk := (parseLine_gotRsp t _ _).1 (show (parseLine t (s.storeHeader bytes).client _).2 = _ by
        rw [hp])
      have hbuf : c.rspBinaryBuf = s.client.rspBinaryBuf :=
        congrArg Setup.rspBinaryBuf (parseLine_setup hp).1
      exact .inr ⟨⟨⟨bytes, rfl, hge⟩, hbin, hcount, hk⟩, by rw [← hbuf]; rfl, by rw [← hbuf]; rfl⟩
    all_goals exact absurd (hr.2.2.symm.trans hst) nofun
  | stalled hbin hge =>
    obtain ⟨-, h1, h2, h3, h4, -⟩ := s.takePayload_client []
    exact .inl ⟨⟨hbin, hge, h3 ▸ hr.2.2⟩, h4, s.takePayload_bufferSize []⟩
  | @payload bytes hne hbin hge =>
    obtain ⟨-, h1, h2, h3, h4, -⟩ := s.takePayload_client bytes
    obtain ⟨heq, hr⟩ := binaryRxNext_receiving hr
    rw [heq]
    exact .inl ⟨⟨hbin, hge, h3 ▸ hr.2.2⟩, h4, s.takePayload_bufferSize bytes⟩

end

/-! ## Reads one after the other -/

/-- What every read keeps, a call of `handleRxData` keeps. -/
theorem handleRxData_induct {P : AtState → Prop} (t : Nat)
    (hstep : ∀ s r, P s → P (s.rxStep t r).1) {s : AtState} (h : P s) (rx : List UInt8)
    (sched : List Arrival) : P (s.handleRxData t rx sched).1 := by
  induction sched generalizing s rx with
  | nil => exact h
  | cons a sched ih =>
    rw [handleRxData]
    have hs := hstep s (a.read rx s.wants).1 h
    rcases hr : s.rxStep t (a.read rx s.wants).1 with ⟨s1, _ | ret⟩
    · rw [hr] at hs
      simp only [hr]
      exact ih hs _
    · rw [hr] at hs
      simp only [hr]
      exact hs

theorem handleRxData_setup (t : Nat) (s : AtState) (rx : List UInt8) (sched : List Arrival) :
    (s.handleRxData t rx sched).1.client.setup = s.client.setup :=
  handleRxData_induct (P := fun s1 => s1.client.setup = s.client.setup) t
    (fun s1 r h => (rxStep_effect t s1 r).setup.trans h) rfl rx sched

end AtState
