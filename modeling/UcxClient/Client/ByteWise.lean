import UcxClient.Lib.Machine
import UcxClient.Client.RxFacts
import UcxClient.Client.Command

/-!
# Reception byte by byte

`rxByte` is the receiver as a machine that takes one byte at a time. Whatever the reads of
`handleRxData` bring, each of at most the bytes it asks for, the result is that of the bytes one by one
(`rxStep_got`, `handleRxData_bytes`); an error of a read changes only `status` and `lastIoError`, and
these never influence the machine (`rxBytes_sameButIo`).
-/

open Machine

namespace AtState

open AtClient

/-- The state without `status` and `lastIoError`. -/
def forgetIo (s : AtState) : AtState :=
  { s with client := { s.client with status := 0, lastIoError := 0 } }

/-- What `handleRxData` reports to its caller, with the state at that moment: a final status, or a
response with its parameters, its binary data and their length. -/
inductive RxEvent where
  | status (status : Int) (s : AtState)
  | rsp (s : AtState)

def rxEvent (s : AtState) : Option ParserCode → List RxEvent
  | some .gotStatus => [.status s.client.status s.forgetIo]
  | some .gotRsp => [.rsp s.forgetIo]
  | _ => []

/-- One byte. -/
def rxByte (t : Nat) (s : AtState) (b : UInt8) : AtState × List RxEvent :=
  let (s, ret) := s.rxStep t (.got [b])
  (s, s.rxEvent ret)

/-- The bytes one after the other. -/
def rxBytes (t : Nat) : AtState → List UInt8 → AtState × List RxEvent := feed (rxByte t)

/-- What no byte changes. -/
theorem rxBytes_setup_ok {t : Nat} {s : AtState} (hok : RxOk s.client) (bs : List UInt8) :
    (rxBytes t s bs).1.client.setup = s.client.setup ∧ RxOk (rxBytes t s bs).1.client := by
  induction bs generalizing s with
  | nil => exact ⟨rfl, hok⟩
  | cons b bs ih =>
    have heff := rxStep_effect t s (.got [b])
    obtain ⟨h1, h2⟩ := ih (heff.ok hok)
    exact ⟨h1.trans heff.setup, h2⟩

/-! ## Storing bytes in two parts -/

theorem storeMem_nil (m : CallerMem) (b off : Nat) : m.store b off [] = m := by
  unfold CallerMem.store
  congr 1
  funext b' i
  exact if_neg fun h => absurd h.2.2 (by simp; omega)

theorem storeMem_cons (m : CallerMem) (b off : Nat) (x : UInt8) (xs : List UInt8) :
    m.store b off (x :: xs) = (m.store b off [x]).store b (off + 1) xs := by
  unfold CallerMem.store
  congr 1
  funext b' i
  simp only [List.length_cons, List.length_nil]
  by_cases hb : b' = b
  · by_cases h1 : off + 1 ≤ i ∧ i < off + 1 + xs.length
    · rw [if_pos ⟨hb, by omega, by omega⟩, if_pos ⟨hb, h1⟩, show i - off = i - (off + 1) + 1 by omega]
      rfl
    · by_cases h0 : i = off
      · subst h0
        rw [if_pos ⟨hb, by omega, by omega⟩, if_neg (by omega), if_pos ⟨hb, by omega, by omega⟩]
        simp
      · rw [if_neg (by omega), if_neg (by omega), if_neg (by omega)]
  · rw [if_neg (fun h => hb h.1), if_neg (fun h => hb h.1), if_neg (fun h => hb h.1)]

theorem storeHeader_nil (s : AtState) : s.storeHeader [] = s := by
  have h : ∀ lb n, storeLengthBuf lb n [] = lb := by
    intro lb n
    unfold storeLengthBuf
    rfl
  simp only [storeHeader, h]
  rfl

/-- A payload that is stored. -/
theorem takePayload_store {s : AtState} (h : 0 < s.remainingBuf) (bytes : List UInt8) :
    s.takePayload bytes = { s.storePayload bytes with client := { (s.storePayload bytes).client with
      binaryRx := { s.client.binaryRx with
        bufferPos := s.client.binaryRx.bufferPos + bytes.length
        remainingDataBytes := s.client.binaryRx.remainingDataBytes - bytes.length } } } := by
  have hb : (s.storePayload bytes).client.binaryRx = s.client.binaryRx := by
    unfold storePayload
    split <;> rfl
  simp only [takePayload, h, decide_true, ↓reduceIte, BinaryRx.advance, hb]

/-- A payload that is discarded. -/
theorem takePayload_discard {s : AtState} (h : ¬0 < s.remainingBuf) (bytes : List UInt8) :
    s.takePayload bytes = { s with client := { s.client with
      binaryRx := { s.client.binaryRx with
        remainingDataBytes := s.client.binaryRx.remainingDataBytes - bytes.length } } } := by
  simp only [takePayload, h, decide_false, Bool.false_eq_true, ↓reduceIte, BinaryRx.advance]

theorem storePayload_nil (s : AtState) : s.storePayload [] = s := by
  unfold storePayload
  split
  · rfl
  · rw [storeMem_nil]
  · rfl

theorem takePayload_nil (s : AtState) : s.takePayload [] = s := by
  by_cases h : 0 < s.remainingBuf
  · rw [takePayload_store h, storePayload_nil]
    rfl
  · rw [takePayload_discard h]
    rfl

/-- A read that brings nothing changes nothing. -/
theorem rxStep_nil (t : Nat) (s : AtState) : s.rxStep t (.got []) = (s, some .nop) := by
  simp only [rxStep, readChar, readHeader, readPayload, storeHeader_nil, takePayload_nil, ↓reduceIte]
  split
  · rfl
  · split <;> rfl

/-! ## A read of several bytes -/

/-- The length of a transfer in two reads. -/
theorem storeHeader_cons (s : AtState) (b b' : UInt8) (h : s.client.binaryRx.rxHeaderCount = 0) :
    s.storeHeader [b, b'] = (s.storeHeader [b]).storeHeader [b'] := by
  simp only [storeHeader, h, storeLengthBuf, List.length_cons, List.length_nil]

theorem takePayload_remainingBuf (s : AtState) (bytes : List UInt8) :
    (s.takePayload bytes).remainingBuf = s.remainingBuf - bytes.length := by
  by_cases h : 0 < s.remainingBuf
  · rw [takePayload_store h]
    unfold remainingBuf
    simp only
    omega
  · rw [takePayload_discard h]
    unfold remainingBuf at h ⊢
    simp only
    omega

/-- A payload in two reads. -/
theorem takePayload_cons (s : AtState) (b : UInt8) {bs : List UInt8}
    (h : 0 < s.remainingBuf → 1 < s.remainingBuf) :
    s.takePayload (b :: bs) = (s.takePayload [b]).takePayload bs := by
  have hlen : s.client.binaryRx.remainingDataBytes - (b :: bs).length =
      s.client.binaryRx.remainingDataBytes - 1 - bs.length := by
    rw [List.length_cons]
    omega
  have hpos : s.client.binaryRx.bufferPos + (b :: bs).length =
      s.client.binaryRx.bufferPos + 1 + bs.length := by
    rw [List.length_cons]
    omega
  by_cases hr : 0 < s.remainingBuf
  · have hr' : 0 < (s.takePayload [b]).remainingBuf := by
      have h1 := h hr
      rw [takePayload_remainingBuf, List.length_singleton]
      omega
    rw [takePayload_store hr, takePayload_store hr', hlen, hpos, takePayload_store hr]
    unfold storePayload
    cases hb : s.client.binaryRx.pBuffer with
    | null => simp [hb]
    | caller d => simp [hb, storeMem_cons s.mem d _ b bs]
    | urcBuffer off => simp [hb, ByteMem.store, Nat.add_assoc]
  · have hr' : ¬0 < (s.takePayload [b]).remainingBuf := by
      rw [takePayload_remainingBuf]
      omega
    rw [takePayload_discard hr, takePayload_discard hr', hlen, takePayload_discard hr]
    rfl

section
variable {t : Nat} {s : AtState}

theorem rxStep_char (h : s.client.isBinaryRx = false) (bytes : List UInt8) :
    s.rxStep t (.got bytes) = s.readChar t bytes := by
  simp [rxStep, h]

theorem rxStep_header (h : s.client.isBinaryRx = true) (hc : s.client.binaryRx.rxHeaderCount < 2)
    (bytes : List UInt8) : s.rxStep t (.got bytes) = s.readHeader t bytes := by
  simp [rxStep, h, hc]

theorem rxStep_payload (h : s.client.isBinaryRx = true) (hc : 2 ≤ s.client.binaryRx.rxHeaderCount)
    (bytes : List UInt8) : s.rxStep t (.got bytes) = s.readPayload t bytes := by
  simp [rxStep, h, Nat.not_lt.2 hc]

/-- The first of several bytes reports nothing, and the others follow as if they had been read on
their own. -/
theorem rxStep_cons {b : UInt8} {bs : List UInt8} (hne : bs ≠ [])
    (hle : (b :: bs).length ≤ s.wants) :
    (∀ s', rxEvent s' (s.rxStep t (.got [b])).2 = []) ∧
    (s.rxStep t (.got [b])).1.rxStep t (.got bs) = s.rxStep t (.got (b :: bs)) ∧
    bs.length ≤ (s.rxStep t (.got [b])).1.wants := by
  have hpos : 0 < bs.length := List.length_pos_iff.2 hne
  rw [List.length_cons] at hle
  by_cases hbin : s.client.isBinaryRx = true
  · by_cases hc : s.client.binaryRx.rxHeaderCount < 2
    · have hw : s.wants = 2 - s.client.binaryRx.rxHeaderCount := by simp [wants, hbin, hc]
      obtain ⟨b', rfl⟩ : ∃ b', bs = [b'] := List.length_eq_one_iff.1 (by omega)
      have h0 : s.client.binaryRx.rxHeaderCount = 0 := by
        simp only [List.length_cons, List.length_nil] at hle
        omega
      have hone : (s.storeHeader [b]).client.binaryRx.rxHeaderCount = 1 := by
        simp only [storeHeader, h0, List.length_cons, List.length_nil]
      have hfirst : s.rxStep t (.got [b]) = (s.storeHeader [b], some .nop) := by
        rw [rxStep_header hbin hc]
        unfold readHeader
        rw [if_pos (show (s.storeHeader [b]).client.binaryRx.rxHeaderCount < 2 by omega)]
      rw [hfirst]
      refine ⟨fun _ => rfl, ?_, ?_⟩
      · rw [rxStep_header (s := s.storeHeader [b]) hbin (by omega), rxStep_header hbin hc]
        unfold readHeader
        rw [storeHeader_cons s b b' h0]
      · simp [wants, hone, show (s.storeHeader [b]).client.isBinaryRx = true from hbin]
    · have hge := Nat.not_lt.1 hc
      have hw : s.wants = if 0 < s.remainingBuf then
          min s.remainingBuf s.client.binaryRx.remainingDataBytes
          else min 64 s.client.binaryRx.remainingDataBytes := by simp [wants, hbin, hc]
      have hrem : bs.length < s.client.binaryRx.remainingDataBytes := by
        rw [hw] at hle
        split at hle <;> omega
      have hbuf : 0 < s.remainingBuf → bs.length < s.remainingBuf := by
        intro h
        rw [hw, if_pos h] at hle
        omega
      obtain ⟨-, hb1, hc1, -⟩ := s.takePayload_client [b]
      have hleft := s.takePayload_remaining [b]
      have hfirst : s.rxStep t (.got [b]) = (s.takePayload [b], none) := by
        rw [rxStep_payload hbin hge]
        unfold readPayload binaryRxNext
        rw [if_neg (by simp), if_pos (by rw [hleft]; simp only [List.length_cons, List.length_nil]; omega)]
      have hsplit : s.takePayload (b :: bs) = (s.takePayload [b]).takePayload bs := by
        apply s.takePayload_cons
        intro h
        have := hbuf h
        omega
      have hge1 : 2 ≤ (s.takePayload [b]).client.binaryRx.rxHeaderCount := by rw [hc1]; exact hge
      rw [hfirst]
      refine ⟨fun _ => rfl, ?_, ?_⟩
      · rw [rxStep_payload (hb1.trans hbin) hge1, rxStep_payload hbin hge]
        unfold readPayload
        rw [hsplit, if_neg hne, if_neg (List.cons_ne_nil b bs)]
      · simp only [wants, hb1, hbin, hc1, hc, hleft, takePayload_remainingBuf, Bool.not_true,
          Bool.false_eq_true, ↓reduceIte, List.length_cons, List.length_nil]
        by_cases hr : 0 < s.remainingBuf
        · have := hbuf hr
          rw [if_pos (by omega)]
          omega
        · rw [hw, if_neg hr] at hle
          rw [if_neg (by omega)]
          omega
  · have hw : s.wants = 1 := by simp [wants, hbin]
    omega

/-- **A read of at most the bytes that were asked for** is the bytes one by one. -/
theorem rxStep_got {bytes : List UInt8} (hle : bytes.length ≤ s.wants) :
    (s.rxStep t (.got bytes)).1 = (rxBytes t s bytes).1 ∧
    rxEvent (s.rxStep t (.got bytes)).1 (s.rxStep t (.got bytes)).2 = (rxBytes t s bytes).2 := by
  induction bytes generalizing s with
  | nil => rw [rxStep_nil]; exact ⟨rfl, rfl⟩
  | cons b bs ih =>
    by_cases hne : bs = []
    · subst hne
      rw [rxBytes, feed_singleton]
      exact ⟨rfl, rfl⟩
    · obtain ⟨hno, heq, hle'⟩ := rxStep_cons (t := t) hne hle
      obtain ⟨h1, h2⟩ := ih hle'
      have hbyte : rxByte t s b = ((s.rxStep t (.got [b])).1, []) := by
        unfold rxByte
        rw [← hno (s.rxStep t (.got [b])).1]
      rw [rxBytes, feed_cons, hbyte, ← heq]
      exact ⟨h1, h2⟩

/-- The state with both length bytes of a transfer. -/
def withLength (s : AtState) (high low : UInt8) : AtState :=
  { s with
    lengthBuf := (high, low)
    client := { s.client with
      isBinaryRx := true, binaryRx := { s.client.binaryRx with rxHeaderCount := 2 } } }

/-- The length bytes of a transfer are read at once. -/
theorem rxStep_length (t : Nat) (hcount : s.client.binaryRx.rxHeaderCount = 0)
    (hbin : s.client.isBinaryRx = true) (high low : UInt8) : [high, low].length ≤ s.wants ∧
    s.rxStep t (.got [high, low]) = (s.withLength high low).startTransfer t := by
  refine ⟨by simp [wants, hbin, hcount], ?_⟩
  have hheader : s.storeHeader [high, low] = s.withLength high low := by
    simp only [storeHeader, withLength, hcount, ← hbin]
    rfl
  rw [rxStep_header hbin (by omega), readHeader, if_neg (by simp [storeHeader, hcount]), hheader]

end

/-! ## `status` and `lastIoError` -/

/-- The states differ at most in `status` and `lastIoError`. -/
def SameButIo (s s' : AtState) : Prop := s.forgetIo = s'.forgetIo

/-- The state with another `status` and `lastIoError`. -/
def withIo (s : AtState) (status lastIoError : Int) : AtState :=
  { s with client := { s.client with status, lastIoError } }

theorem SameButIo.exists_withIo {s s' : AtState} (h : SameButIo s s') :
    ∃ status lastIoError, s' = s.withIo status lastIoError := by
  obtain ⟨c, m, lb⟩ := s
  obtain ⟨c', m', lb'⟩ := s'
  simp only [SameButIo, forgetIo, AtState.mk.injEq] at h
  obtain ⟨hc, rfl, rfl⟩ := h
  refine ⟨c'.status, c'.lastIoError, ?_⟩
  simp only [withIo]
  cases c
  cases c'
  cases hc
  rfl

section
variable (t : Nat) (s : AtState) (v e : Int)

theorem parseLine_withIo (line : List UInt8) : ∃ v',
    (s.withIo v e).client.parseLine t line =
      ({ (s.client.parseLine t line).1 with status := v', lastIoError := e },
        (s.client.parseLine t line).2) ∧
    ((s.client.parseLine t line).2 = .gotStatus → v' = (s.client.parseLine t line).1.status) := by
  rw [parseLine_eq, parseLine_eq]
  have hk : lineKind (s.withIo v e).client.executingCmd (s.withIo v e).client.pExpectedRsp line =
      lineKind s.client.executingCmd s.client.pExpectedRsp line := rfl
  rw [hk]
  cases lineKind s.client.executingCmd s.client.pExpectedRsp line with
  | status status => exact ⟨status, rfl, fun _ => rfl⟩
  | urc =>
    refine ⟨v, rfl, fun h => ?_⟩
    simp only [onLine] at h
    split at h <;> cases h
  | _ => exact ⟨v, rfl, by rintro ⟨⟩⟩

theorem setupBinaryTransfer_withIo (ret : ParserCode) (n : Nat) :
    setupBinaryTransfer t (s.withIo v e) ret n = (setupBinaryTransfer t s ret n).withIo v e := by
  cases ret with
  | gotUrc =>
    by_cases h : n < (UrcQueue.uCxAtUrcQueueEnqueueGetPayloadPtr s.client.urcQueue).2
    · have h' : n < (UrcQueue.uCxAtUrcQueueEnqueueGetPayloadPtr (s.withIo v e).client.urcQueue).2 := h
      simp only [setupBinaryTransfer]
      rw [if_pos h, if_pos h']
      rfl
    · have h' : ¬n < (UrcQueue.uCxAtUrcQueueEnqueueGetPayloadPtr (s.withIo v e).client.urcQueue).2 := h
      simp only [setupBinaryTransfer]
      rw [if_neg h, if_neg h']
      rfl
  | _ => rfl

theorem binaryRxDone_withIo : (s.withIo v e).binaryRxDone t =
    ((s.binaryRxDone t).1.withIo v e, (s.binaryRxDone t).2) := by
  have hst' : (s.withIo v e).client.binaryRx.state = s.client.binaryRx.state := rfl
  cases hst : s.client.binaryRx.state <;> simp only [binaryRxDone, hst', hst] <;> rfl

theorem binaryRxNext_withIo : (s.withIo v e).binaryRxNext t =
    ((s.binaryRxNext t).1.withIo v e, (s.binaryRxNext t).2) := by
  by_cases h : 0 < s.client.binaryRx.remainingDataBytes
  · have h' : 0 < (s.withIo v e).client.binaryRx.remainingDataBytes := h
    rw [binaryRxNext, if_pos h', binaryRxNext, if_pos h]
  · have h' : ¬0 < (s.withIo v e).client.binaryRx.remainingDataBytes := h
    rw [binaryRxNext, if_neg h', binaryRxNext, if_neg h, binaryRxDone_withIo]

theorem binaryRxNext_ne_gotStatus : (s.binaryRxNext t).2 ≠ some .gotStatus := by
  rcases s.binaryRxNext_cases t with ⟨-, heq⟩ | ⟨-, heq⟩
  · rw [heq]
    nofun
  · rw [heq]
    cases hst : s.client.binaryRx.state <;> simp [binaryRxDone, hst]

theorem takePayload_withIo (bytes : List UInt8) :
    (s.withIo v e).takePayload bytes = (s.takePayload bytes).withIo v e := by
  by_cases h : 0 < s.remainingBuf
  · have h' : 0 < (s.withIo v e).remainingBuf := h
    rw [takePayload_store h, takePayload_store h']
    unfold storePayload
    have hb : (s.withIo v e).client.binaryRx = s.client.binaryRx := rfl
    rw [hb]
    cases s.client.binaryRx.pBuffer <;> rfl
  · have h' : ¬0 < (s.withIo v e).remainingBuf := h
    rw [takePayload_discard h, takePayload_discard h']
    rfl

theorem startTransfer_withIo : ∃ v',
    (s.withIo v e).startTransfer t = ((s.startTransfer t).1.withIo v' e, (s.startTransfer t).2) := by
  obtain ⟨v', hp, -⟩ := parseLine_withIo t s v e s.client.rxBuffer
  obtain ⟨n, hn, h⟩ := s.startTransfer_eq t (Prod.eta _).symm
  obtain ⟨n', hn', h'⟩ := (s.withIo v e).startTransfer_eq t hp
  obtain rfl : n = n' := hn.symm.trans hn'
  have hset := setupBinaryTransfer_withIo t
    { s with client := (s.client.parseLine t s.client.rxBuffer).1 } v' e
    (s.client.parseLine t s.client.rxBuffer).2 n
  refine ⟨v', ?_⟩
  rw [h, h', ← binaryRxNext_withIo]
  congr 1
  simp only [withIo] at hset ⊢
  rw [hset]

end

theorem startTransfer_ne_gotStatus (t : Nat) (s : AtState) :
    (s.startTransfer t).2 ≠ some .gotStatus := by
  obtain ⟨n, -, h⟩ := s.startTransfer_eq t (Prod.eta _).symm
  rw [h]
  exact binaryRxNext_ne_gotStatus t _

theorem readChar_withIo (t : Nat) (s : AtState) (v e : Int) (bytes : List UInt8) : ∃ v',
    (s.withIo v e).readChar t bytes =
      ((s.readChar t bytes).1.withIo v' e, (s.readChar t bytes).2) ∧
    ((s.readChar t bytes).2 = some .gotStatus → v' = (s.readChar t bytes).1.client.status) := by
  cases charRead bytes with
  | none hone =>
    rw [readChar_none t s hone, readChar_none t _ hone]
    exact ⟨v, rfl, nofun⟩
  | eol heol =>
    obtain ⟨v', hp, hst⟩ := parseLine_withIo t s v e s.client.rxBuffer
    have hrx : (s.withIo v e).client.rxBuffer = s.client.rxBuffer := rfl
    refine ⟨v', ?_, fun h => ?_⟩
    · rw [readChar_eol t s heol, readChar_eol t _ heol, hrx, hp]
      unfold withIo lineDone
      split <;> rfl
    · rw [readChar_eol t s heol] at h ⊢
      rw [status_lineDone]
      apply hst
      unfold lineRet at h
      split at h
      · exact Option.some.inj h
      · cases h
  | soh => exact ⟨v, rfl, nofun⟩
  | print hpr =>
    rw [readChar_print t s hpr, readChar_print t _ hpr]
    exact ⟨v, rfl, nofun⟩
  | skip hsoh heol hpr =>
    rw [readChar_skip t s hsoh heol hpr, readChar_skip t _ hsoh heol hpr]
    exact ⟨v, rfl, nofun⟩

/-- The bytes of a read are taken alike. -/
theorem rxStep_withIo (t : Nat) (s : AtState) (v e : Int) (bytes : List UInt8) : ∃ v',
    (s.withIo v e).rxStep t (.got bytes) =
      ((s.rxStep t (.got bytes)).1.withIo v' e, (s.rxStep t (.got bytes)).2) ∧
    ((s.rxStep t (.got bytes)).2 = some .gotStatus →
      v' = (s.rxStep t (.got bytes)).1.client.status) := by
  by_cases hbin : s.client.isBinaryRx = true
  · have hbin' : (s.withIo v e).client.isBinaryRx = true := hbin
    by_cases hc : s.client.binaryRx.rxHeaderCount < 2
    · have hc' : (s.withIo v e).client.binaryRx.rxHeaderCount < 2 := hc
      have hsh : (s.withIo v e).storeHeader bytes = (s.storeHeader bytes).withIo v e := rfl
      rw [rxStep_header hbin hc, rxStep_header hbin' hc', readHeader, readHeader, hsh]
      by_cases hn : (s.storeHeader bytes).client.binaryRx.rxHeaderCount < 2
      · have hn' : ((s.storeHeader bytes).withIo v e).client.binaryRx.rxHeaderCount < 2 := hn
        rw [if_pos hn, if_pos hn']
        exact ⟨v, rfl, by rintro ⟨⟩⟩
      · have hn' : ¬((s.storeHeader bytes).withIo v e).client.binaryRx.rxHeaderCount < 2 := hn
        rw [if_neg hn, if_neg hn']
        obtain ⟨v', h⟩ := startTransfer_withIo t (s.storeHeader bytes) v e
        exact ⟨v', h, fun h' => absurd h' (startTransfer_ne_gotStatus t _)⟩
    · have hge := Nat.not_lt.1 hc
      have hge' : 2 ≤ (s.withIo v e).client.binaryRx.rxHeaderCount := hge
      rw [rxStep_payload hbin hge, rxStep_payload hbin' hge', readPayload, readPayload,
        takePayload_withIo]
      split
      · exact ⟨v, rfl, by rintro ⟨⟩⟩
      · rw [binaryRxNext_withIo]
        exact ⟨v, rfl, fun h' => absurd h' (binaryRxNext_ne_gotStatus t _)⟩
  · have hfalse : s.client.isBinaryRx = false := by simpa using hbin
    have hfalse' : (s.withIo v e).client.isBinaryRx = false := hfalse
    simp only [rxStep, hfalse, hfalse', Bool.not_false, ↓reduceIte]
    exact readChar_withIo t s v e bytes

/-- `status` and `lastIoError` have no influence on the bytes that follow. -/
theorem rxBytes_sameButIo (t : Nat) {s s' : AtState} (h : SameButIo s s') (bs : List UInt8) :
    SameButIo (rxBytes t s bs).1 (rxBytes t s' bs).1 ∧ (rxBytes t s bs).2 = (rxBytes t s' bs).2 := by
  refine feed_rel (fun s s' b hs => ?_) h bs
  obtain ⟨v, e, rfl⟩ := hs.exists_withIo
  obtain ⟨v', heq, hst⟩ := rxStep_withIo t s v e [b]
  simp only [rxByte, heq]
  refine ⟨rfl, ?_⟩
  rcases hret : (s.rxStep t (.got [b])).2 with _ | code
  · rfl
  · cases code with
    | gotStatus =>
      simp only [rxEvent, List.cons.injEq, RxEvent.status.injEq, and_true]
      exact ⟨(hst hret).symm, rfl⟩
    | _ => rfl

/-! ## `handleRxData` -/

/-- **A call of `handleRxData`** takes some bytes from the input, and does with them what the machine
does, up to the event that it returns; a failed read may follow. -/
theorem handleRxData_bytes (t : Nat) (s : AtState) (rx : List UInt8) (sched : List Arrival) :
    ∃ bs, rx = bs ++ (s.handleRxData t rx sched).2.1.rx ∧
      ((s.handleRxData t rx sched).1 = (rxBytes t s bs).1 ∨
        ∃ err, .failed err ∈ sched ∧
          (s.handleRxData t rx sched).1 = (rxBytes t s bs).1.readError err) ∧
      (rxBytes t s bs).2 =
        rxEvent (s.handleRxData t rx sched).1 (some (s.handleRxData t rx sched).2.2) := by
  induction sched generalizing s rx with
  | nil => exact ⟨[], rfl, .inl rfl, rfl⟩
  | cons a sched ih =>
    cases a with
    | failed err => exact ⟨[], rfl, .inr ⟨err, List.mem_cons_self, rfl⟩, rfl⟩
    | avail n =>
      have hsplit := (List.take_append_drop (min n s.wants) rx).symm
      have hle : (rx.take (min n s.wants)).length ≤ s.wants := by
        rw [List.length_take]
        omega
      obtain ⟨h1, h2⟩ := rxStep_got (t := t) hle
      simp only [handleRxData, Arrival.read]
      rcases hr : s.rxStep t (.got (rx.take (min n s.wants))) with ⟨s1, _ | code⟩
      · rw [hr] at h1 h2
        obtain ⟨bs, h3, h4, h5⟩ := ih s1 (rx.drop (min n s.wants))
        have happ : rxBytes t s (rx.take (min n s.wants) ++ bs) = rxBytes t s1 bs := by
          have h1' : s1 = (feed (rxByte t) s (rx.take (min n s.wants))).1 := h1
          have h2' : [] = (feed (rxByte t) s (rx.take (min n s.wants))).2 := h2
          rw [rxBytes, feed_append, ← h1', ← h2', List.nil_append]
        refine ⟨rx.take (min n s.wants) ++ bs, ?_, ?_, ?_⟩
        · rw [List.append_assoc, ← h3]
          exact hsplit
        · rw [happ]
          rcases h4 with h4 | ⟨err, hmem, h4⟩
          · exact .inl h4
          · exact .inr ⟨err, List.mem_cons_of_mem _ hmem, h4⟩
        · rw [happ]
          exact h5
      · rw [hr] at h1 h2
        exact ⟨_, hsplit, .inl h1, h2.symm⟩

/-- `handleRxData` called `n` times, and what the calls report. -/
def handleRxCalls (t : Nat) : Nat → AtState → Uart → AtState × Uart × List RxEvent
  | 0, s, uart => (s, uart, [])
  | n + 1, s, uart =>
    let (s, uart, ret) := s.handleRxData t uart.rx uart.sched
    let (s', uart', events) := handleRxCalls t n s uart
    (s', uart', s.rxEvent (some ret) ++ events)

theorem sameButIo_readError (s : AtState) (err : Int) : SameButIo s (s.readError err) := rfl

/-- Any number of calls do what the machine does with the bytes they take. -/
theorem handleRxCalls_bytes (t n : Nat) (s : AtState) (uart : Uart) :
    ∃ bs, uart.rx = bs ++ (handleRxCalls t n s uart).2.1.rx ∧
      SameButIo (rxBytes t s bs).1 (handleRxCalls t n s uart).1 ∧
      (rxBytes t s bs).2 = (handleRxCalls t n s uart).2.2 := by
  induction n generalizing s uart with
  | zero => exact ⟨[], rfl, rfl, rfl⟩
  | succ n ih =>
    obtain ⟨bs, hrx, hs, hev⟩ := handleRxData_bytes t s uart.rx uart.sched
    simp only [handleRxCalls]
    generalize s.handleRxData t uart.rx uart.sched = x at hrx hs hev ⊢
    obtain ⟨s1, uart1, ret⟩ := x
    obtain ⟨cs, hrx', hs', hev'⟩ := ih s1 uart1
    have h1 : SameButIo (rxBytes t s bs).1 s1 := by
      rcases hs with hs | ⟨err, -, hs⟩
      · exact congrArg forgetIo hs.symm
      · exact (sameButIo_readError _ err).trans (congrArg forgetIo hs.symm)
    obtain ⟨h2, h3⟩ := rxBytes_sameButIo t h1 cs
    refine ⟨bs ++ cs, ?_, ?_, ?_⟩
    · rw [List.append_assoc, ← hrx']
      exact hrx
    · rw [rxBytes, feed_append]
      exact h2.trans hs'
    · rw [rxBytes, feed_append]
      exact congr (congrArg _ hev) (h3.trans hev')

/-- **Reception does not depend on how the bytes are split.** Two series of calls that receive the same
bytes, in any pieces and with any failed and empty reads between them, report the same and end in
states that differ at most in `status` and `lastIoError`. A failed read changes only these, and an
empty read nothing. -/
theorem reception_chunk_independent (t n n' : Nat) (s : AtState) (rx : List UInt8)
    (sched sched' : List Arrival) (h : (handleRxCalls t n s ⟨rx, sched⟩).2.1.rx = [])
    (h' : (handleRxCalls t n' s ⟨rx, sched'⟩).2.1.rx = []) :
    (handleRxCalls t n s ⟨rx, sched⟩).2.2 = (handleRxCalls t n' s ⟨rx, sched'⟩).2.2 ∧
    SameButIo (handleRxCalls t n s ⟨rx, sched⟩).1 (handleRxCalls t n' s ⟨rx, sched'⟩).1 ∧
    (∀ (s : AtState) err rx, SameButIo s (s.rxStep t (.failed err)).1 ∧
      ((Arrival.failed err).read rx s.wants).2 = rx) ∧
    ∀ s : AtState, (s.rxStep t (.got [])).1 = s := by
  obtain ⟨bs, hrx, hs, hev⟩ := handleRxCalls_bytes t n s ⟨rx, sched⟩
  obtain ⟨bs', hrx', hs', hev'⟩ := handleRxCalls_bytes t n' s ⟨rx, sched'⟩
  rw [h, List.append_nil] at hrx
  rw [h', List.append_nil] at hrx'
  obtain rfl : bs = bs' := hrx.symm.trans hrx'
  refine ⟨hev.symm.trans hev', hs.symm.trans hs', ?_, ?_⟩
  · intro s err rx
    exact ⟨sameButIo_readError s err, rfl⟩
  · intro s
    rw [rxStep_nil]

/-- A client that is executing a command and expects a response `+R` with binary data. -/
def awaiting : AtState :=
  let c := { uCxAtClientInit false 32 (List.replicate 32 0) with executingCmd := true }
  ⟨c.expectRsp (some (text "+R")) (some 0) (some 0), ⟨fun _ _ => 0, fun _ => 8⟩, (0, 0)⟩

/-- A binary response and a status, read in two ways. -/
theorem reception_chunk_independent_binary_rsp :
    (handleRxCalls 0 2 awaiting ⟨text "+R" ++ [sohChar, 0, 3] ++ text "abcOK\r",
      List.replicate 16 (.avail 9)⟩).2.2 =
    (handleRxCalls 0 32 awaiting ⟨text "+R" ++ [sohChar, 0, 3] ++ text "abcOK\r",
      (List.replicate 16 [.avail 0, .avail 1, .failed (-5)]).flatten⟩).2.2 :=
  (reception_chunk_independent 0 2 32 awaiting _ _ _ (by decide) (by decide)).1

end AtState
