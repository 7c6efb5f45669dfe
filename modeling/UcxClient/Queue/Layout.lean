import UcxClient.Queue.Defs
import UcxClient.Lib.Fifo

/-!
# The layout of the URC buffer

An entry `u` occupies `u.encode`: its length fields, its line with the null terminator, its
payload. The used part of the buffer is the encoding of the queued entries (`Region`), where the
data bytes of an entry that has been handed to the URC callback are arbitrary: the callback may
change them, but not their number. The lemmas say what the entry fields read there
(`strLineLen_append`, `payloadSize_append`) and what the queue functions do to a buffer laid out
like that (`enqueueBegin_eq`, `enqueueEnd_eq`, `popEntry_eq`).
-/

open ByteMem

/-- A URC as it was received: its line and its binary payload. -/
structure Urc where
  line : List UInt8
  payload : List UInt8
  deriving DecidableEq

namespace Urc

/-- What the URC callback is given of an entry: the length of the line, the length of the payload
and the bytes from the start of the line on. -/
structure View where
  strLineLen : Nat
  payloadSize : Nat
  data : List UInt8
  deriving DecidableEq

def data (u : Urc) : List UInt8 := u.line ++ 0 :: u.payload

/-- The line with its null terminator, followed by the payload. -/
def view (u : Urc) : View := ⟨u.line.length, u.payload.length, u.data⟩

/-- The line and the payload that the callback finds there. -/
def View.urc (v : View) : Urc :=
  ⟨v.data.take v.strLineLen, (v.data.drop (v.strLineLen + 1)).take v.payloadSize⟩

theorem urc_view (u : Urc) : u.view.urc = u := by
  have hdrop : u.data.drop (u.line.length + 1) = u.payload := by
    rw [data, List.append_cons, List.drop_left' (by simp)]
  have htake : u.data.take u.line.length = u.line := by rw [data, List.take_left' rfl]
  simp only [view, View.urc, hdrop, htake, List.take_length]

def encode (u : Urc) : List UInt8 :=
  u16Bytes u.line.length ++ u16Bytes u.payload.length ++ u.data

@[simp] theorem length_data (u : Urc) : u.data.length = u.line.length + 1 + u.payload.length := by
  simp [data]; omega

@[simp] theorem length_encode (u : Urc) : u.encode.length = 4 + u.data.length := by
  simp [encode]; omega

/-- Both lengths fit the 16 bit fields. -/
def Fits (u : Urc) : Prop := u.line.length < 65536 ∧ u.payload.length < 65536

end Urc

namespace UrcQueue

/-- The entry at offset 0 as the URC callback gets it. -/
def viewHead (q : UrcQueue) : Urc.View :=
  ⟨q.strLineLen 0, q.payloadSize 0, load q.pBuffer sizeofUrcEntry (q.entrySize 0)⟩

/-- The queued entries of `a` occupy `bs`; the data of a lent head may have been changed. -/
def Region (a : Fifo.State Urc) (bs : List UInt8) : Prop :=
  if a.lent then ∃ u us d, a.items = u :: us ∧ d.length = u.data.length ∧
    bs = u16Bytes u.line.length ++ u16Bytes u.payload.length ++ d ++ us.flatMap Urc.encode
  else bs = a.items.flatMap Urc.encode

theorem region_push {a : Fifo.State Urc} {used : List UInt8} {u : Urc} (h : Region a used) :
    Region { a with items := a.items ++ [u] } (used ++ u.encode) := by
  unfold Region at h ⊢
  split
  · rename_i hlent
    rw [if_pos hlent] at h
    obtain ⟨v, vs, d, hv, hd, rfl⟩ := h
    exact ⟨v, vs ++ [u], d, by simp [hv], hd, by simp⟩
  · rename_i hlent
    rw [if_neg hlent] at h
    simp [h]

/-! ## The length fields of the head -/

section
variable {q : UrcQueue} {l p : Nat} {rest : List UInt8}

theorem strLineLen_append (h : q.pBuffer = u16Bytes l ++ u16Bytes p ++ rest) (hl : l < 65536) :
    q.strLineLen 0 = l := by
  rw [strLineLen, h]
  simpa using getU16_u16Bytes [] (u16Bytes p ++ rest) l 0 rfl hl

theorem payloadSize_append (h : q.pBuffer = u16Bytes l ++ u16Bytes p ++ rest) (hp : p < 65536) :
    q.payloadSize 0 = p := by
  rw [payloadSize, h]
  exact getU16_u16Bytes (u16Bytes l) rest p 2 rfl hp

theorem entrySize_append (h : q.pBuffer = u16Bytes l ++ u16Bytes p ++ rest) (hl : l < 65536)
    (hp : p < 65536) : q.entrySize 0 = l + 1 + p := by
  rw [entrySize, strLineLen_append h hl, payloadSize_append h hp]

end

/-- The head of an undisturbed region is seen as it was enqueued. -/
theorem viewHead_eq {q : UrcQueue} {u : Urc} {rest : List UInt8} (h : q.pBuffer = u.encode ++ rest)
    (hu : u.Fits) : q.viewHead = u.view := by
  have h' : q.pBuffer = u16Bytes u.line.length ++ u16Bytes u.payload.length ++ (u.data ++ rest) := by
    simp [h, Urc.encode]
  have hd := load_mid (u16Bytes u.line.length ++ u16Bytes u.payload.length) u.data rest
    sizeofUrcEntry (u.line.length + 1 + u.payload.length) rfl (by simp)
  rw [viewHead, entrySize_append h' hu.1 hu.2, strLineLen_append h' hu.1,
    payloadSize_append h' hu.2, h', ← List.append_assoc, hd]
  rfl

/-- The URC that is stored as the entry at `pEntry`. -/
def entryAt (q : UrcQueue) (pEntry : Nat) : Urc :=
  ⟨load q.pBuffer (pEntry + sizeofUrcEntry) (q.strLineLen pEntry),
    load q.pBuffer (pEntry + sizeofUrcEntry + q.strLineLen pEntry + 1) (q.payloadSize pEntry)⟩

/-- The end of the entries whose enqueue has ended. -/
def committed (q : UrcQueue) : Nat := q.pEnqueueEntry.getD q.bufferPos

theorem entryAt_append {q : UrcQueue} {u : Urc} {used rest : List UInt8}
    (h : q.pBuffer = used ++ u.encode ++ rest) (hu : u.Fits) : q.entryAt used.length = u := by
  have hline : q.strLineLen used.length = u.line.length := by
    rw [strLineLen, h]
    simpa [Urc.encode] using getU16_u16Bytes used (u16Bytes u.payload.length ++ u.data ++ rest)
      u.line.length used.length rfl hu.1
  have hpay : q.payloadSize used.length = u.payload.length := by
    rw [payloadSize, h]
    simpa [Urc.encode] using getU16_u16Bytes (used ++ u16Bytes u.line.length) (u.data ++ rest)
      u.payload.length (used.length + 2) (by simp) hu.2
  have h1 : q.pBuffer = (used ++ u16Bytes u.line.length ++ u16Bytes u.payload.length) ++ u.line ++
      (0 :: u.payload ++ rest) := by simp [h, Urc.encode, Urc.data]
  have h2 : q.pBuffer = (used ++ u16Bytes u.line.length ++ u16Bytes u.payload.length ++ u.line ++
      [0]) ++ u.payload ++ rest := by simp [h1]
  have hl1 : load q.pBuffer (used.length + sizeofUrcEntry) u.line.length = u.line := by
    rw [h1]
    exact load_mid _ _ _ _ _ (by simp [sizeofUrcEntry]) rfl
  have hl2 : load q.pBuffer (used.length + sizeofUrcEntry + u.line.length + 1) u.payload.length =
      u.payload := by
    rw [h2]
    exact load_mid _ _ _ _ _ (by simp [sizeofUrcEntry]; omega) rfl
  rw [entryAt, hline, hpay, hl1, hl2]

/-! ## The queue functions on a buffer laid out like that -/

theorem length_newEntry (line : List UInt8) : (newEntry line).length = 4 + line.length + 1 := by
  simp [newEntry]; omega

/-- The comparison of `uCxAtUrcQueueEnqueueBegin`, as long as the conversions to `int32_t` keep
their value. -/
theorem hasSpaceFor_iff {q : UrcQueue} {n : Nat} (hle : q.bufferPos ≤ q.bufferLen)
    (hlen : q.bufferLen < 2 ^ 31) (hn : n < 2 ^ 31) :
    q.hasSpaceFor n = true ↔ q.bufferPos + (4 + n + 1) ≤ q.bufferLen := by
  rw [hasSpaceFor, getUnusedBuf, sizeSub_of_le hle, decide_eq_true_eq,
    toInt32_of_lt (n := (n : Int)) (by omega) (by omega),
    toInt32_of_lt (by simp only [sizeofUrcEntry]; omega) (by simp only [sizeofUrcEntry]; omega)]
  simp only [sizeofUrcEntry]
  omega

/-- An accepted line becomes a new entry behind the used part of the buffer. -/
theorem enqueueBegin_eq (t : Nat) {q : UrcQueue} {line used free : List UInt8}
    (hs : q.hasSpaceFor line.length = true) (hb : q.pBuffer = used ++ free)
    (hpos : q.bufferPos = used.length) (hfree : 4 + line.length + 1 ≤ free.length) :
    ∃ q', uCxAtUrcQueueEnqueueBegin t q line = (true, q') ∧
      q'.pBuffer = used ++ newEntry line ++ free.drop (4 + line.length + 1) ∧
      q'.bufferPos = q.bufferPos + (newEntry line).length ∧ q'.bufferLen = q.bufferLen ∧
      q'.pEnqueueEntry = some q.bufferPos ∧ q'.queueMutex = q.queueMutex.lock t ∧
      q'.dequeueMutex = q.dequeueMutex ∧ q'.pDequeueEntry = q.pDequeueEntry := by
  have hs' : ({ q with queueMutex := q.queueMutex.lock t } : UrcQueue).hasSpaceFor line.length
      = true := hs
  refine ⟨_, by simp only [uCxAtUrcQueueEnqueueBegin, hasSpaceFor_assert, hs', ↓reduceIte]; rfl,
    ?_, ?_, by simp, by simp, by simp, by simp, by simp⟩
  · simp only [pBuffer_assert, bufferPos_assert, hb]
    have := store_mid used (free.take (4 + line.length + 1)) (free.drop (4 + line.length + 1))
      (newEntry line) q.bufferPos hpos (by rw [length_newEntry, List.length_take]; omega)
    rwa [List.append_assoc, List.take_append_drop] at this
  · simp [sizeofUrcEntry, length_newEntry]

theorem enqueueBegin_fst (t : Nat) (q : UrcQueue) (line : List UInt8) :
    (uCxAtUrcQueueEnqueueBegin t q line).1 = q.hasSpaceFor line.length := by
  have hsp : ({ q with queueMutex := q.queueMutex.lock t } : UrcQueue).hasSpaceFor line.length =
      q.hasSpaceFor line.length := rfl
  simp only [uCxAtUrcQueueEnqueueBegin, hasSpaceFor_assert, hsp]
  split <;> simp_all

theorem bufferLen_enqueueBegin (t : Nat) (q : UrcQueue) (line : List UInt8) :
    (uCxAtUrcQueueEnqueueBegin t q line).2.bufferLen = q.bufferLen := by
  simp only [uCxAtUrcQueueEnqueueBegin]
  split <;> simp

/-- An accepted line is stored behind the bytes in use, whatever its length. -/
theorem enqueueBegin_accepted {t : Nat} {q : UrcQueue} {line : List UInt8}
    (hs : q.hasSpaceFor line.length = true) :
    (uCxAtUrcQueueEnqueueBegin t q line).2.pBuffer = store q.pBuffer q.bufferPos (newEntry line) ∧
    (uCxAtUrcQueueEnqueueBegin t q line).2.pEnqueueEntry = some q.bufferPos ∧
    (uCxAtUrcQueueEnqueueBegin t q line).2.bufferLen = q.bufferLen ∧
    (uCxAtUrcQueueEnqueueBegin t q line).2.bufferPos = q.bufferPos + (newEntry line).length := by
  have hs' : ({ q with queueMutex := q.queueMutex.lock t } : UrcQueue).hasSpaceFor line.length
      = true := hs
  simp [uCxAtUrcQueueEnqueueBegin, hs', sizeofUrcEntry, length_newEntry]

/-- A refused line leaves the queue as it was. -/
theorem enqueueBegin_refused (t : Nat) {q : UrcQueue} {line : List UInt8}
    (hs : q.hasSpaceFor line.length = false) (ho : q.queueMutex.owner = none)
    (hc : q.queueMutex.count = 0) (he : q.pEnqueueEntry = none) :
    uCxAtUrcQueueEnqueueBegin t q line = (false, q) := by
  have hs' : ({ q with queueMutex := q.queueMutex.lock t } : UrcQueue).hasSpaceFor line.length
      = false := hs
  simp only [uCxAtUrcQueueEnqueueBegin, hasSpaceFor_assert, hs', Bool.false_eq_true, ↓reduceIte]
  have he' : q.pEnqueueEntry.isNone = true := by simp [he]
  simp only [he', assert_true, Mutex.unlock_lock_of_free t ho hc]

/-- A refused line changes no byte, whatever the state of the locks. -/
theorem enqueueBegin_refused_bytes (t : Nat) {q : UrcQueue} {line : List UInt8}
    (hs : q.hasSpaceFor line.length = false) :
    (uCxAtUrcQueueEnqueueBegin t q line).2.pBuffer = q.pBuffer ∧
    (uCxAtUrcQueueEnqueueBegin t q line).2.bufferLen = q.bufferLen ∧
    (uCxAtUrcQueueEnqueueBegin t q line).2.bufferPos = q.bufferPos := by
  have hs' : ({ q with queueMutex := q.queueMutex.lock t } : UrcQueue).hasSpaceFor line.length
      = false := hs
  simp [uCxAtUrcQueueEnqueueBegin, hs']

/-- The payload is part of the entry once its size is recorded. -/
theorem enqueueEnd_eq (t : Nat) {q : UrcQueue} {line payload used free : List UInt8}
    (hb : q.pBuffer = used ++ newEntry line ++ payload ++ free)
    (he : q.pEnqueueEntry = some used.length) :
    (uCxAtUrcQueueEnqueueEnd t q payload.length).pBuffer =
      used ++ Urc.encode ⟨line, payload⟩ ++ free := by
  have hb' : q.pBuffer = (used ++ u16Bytes line.length) ++ u16Bytes 0 ++
      (line ++ [0] ++ payload ++ free) := by simp [hb, newEntry]
  simp only [uCxAtUrcQueueEnqueueEnd, pBuffer_assert, pEnqueueEntry_assert, he, Option.getD_some,
    hb']
  rw [store_mid (used ++ u16Bytes line.length) (u16Bytes 0) _ (u16Bytes payload.length) _ (by simp)
    rfl]
  simp [Urc.encode, Urc.data]

/-- The entry behind the head moves to the start of the buffer. -/
theorem popEntry_eq {q : UrcQueue} {l p : Nat} {d used free : List UInt8}
    (hb : q.pBuffer = u16Bytes l ++ u16Bytes p ++ d ++ used ++ free) (hl : l < 65536)
    (hp : p < 65536) (hd : d.length = l + 1 + p) (hpos : q.bufferPos = 4 + d.length + used.length)
    (hlt : q.bufferPos < 2 ^ 31) :
    ∃ free', (q.popEntry 0).pBuffer = used ++ free' ∧
      (q.popEntry 0).pBuffer.length = q.pBuffer.length ∧
      (q.popEntry 0).bufferPos = used.length := by
  have hb' : q.pBuffer = u16Bytes l ++ u16Bytes p ++ (d ++ used ++ free) := by simp [hb]
  have hsize : q.entrySize 0 = l + 1 + p := entrySize_append hb' hl hp
  have hrem : toInt32 q.bufferPos - toInt32 ((sizeofUrcEntry + q.entrySize 0 : Nat) : Int) =
      (used.length : Int) := by
    rw [hsize, toInt32_of_lt (by omega) (by omega), toInt32_of_lt (by omega)
      (by simp only [sizeofUrcEntry]; omega)]
    simp only [sizeofUrcEntry]
    omega
  by_cases hu : used = []
  · subst hu
    refine ⟨q.pBuffer, ?_, ?_, ?_⟩ <;> simp_all [popEntry]
  · have hupos : 0 < used.length := List.length_pos_iff.2 hu
    obtain ⟨rest, hrest, hlen⟩ := moveDown_append (u16Bytes l ++ u16Bytes p ++ d) used free
      (sizeofUrcEntry + q.entrySize 0) used.length
      (by simp only [List.length_append, length_u16Bytes, hd, hsize, sizeofUrcEntry]) rfl
    have hcond : (0 : Int) < used.length := by omega
    have hlen' : ((q.popEntry 0).pBuffer.length = q.pBuffer.length) := by
      simp only [popEntry]
      split <;> simp [moveDown]
    refine ⟨rest, ?_, hlen', ?_⟩
    · simp only [popEntry, bufferPos_assert, entrySize_assert, hrem, hcond, ↓reduceIte,
        pBuffer_assert, Int.toNat_natCast]
      rw [hb]
      simpa [List.append_assoc] using hrest
    · simp only [popEntry, bufferPos_assert, entrySize_assert, hrem, hcond, ↓reduceIte]
      rw [sizeSub_of_le (by rw [hsize, hpos, hd]; simp only [sizeofUrcEntry]; omega), hsize, hpos, hd]
      simp only [sizeofUrcEntry]
      omega

/-! ## The data of a queue does not depend on its locks -/

/-- The queues differ at most in their mutexes. -/
structure SameData (q q' : UrcQueue) : Prop where
  pBuffer : q.pBuffer = q'.pBuffer
  bufferLen : q.bufferLen = q'.bufferLen
  bufferPos : q.bufferPos = q'.bufferPos
  pEnqueueEntry : q.pEnqueueEntry = q'.pEnqueueEntry
  pDequeueEntry : q.pDequeueEntry = q'.pDequeueEntry
  assertFailed : q.assertFailed = q'.assertFailed

namespace SameData

theorem refl (q : UrcQueue) : SameData q q := ⟨rfl, rfl, rfl, rfl, rfl, rfl⟩

variable {q q' : UrcQueue}

theorem assert (h : SameData q q') {cond cond' : Bool} (hc : cond = cond') :
    SameData (q.assert cond) (q'.assert cond') := by
  subst hc
  cases cond with
  | true => exact h
  | false => exact ⟨h.1, h.2, h.3, h.4, h.5, rfl⟩

theorem getUnusedBuf (h : SameData q q') : q.getUnusedBuf = q'.getUnusedBuf := by
  rw [UrcQueue.getUnusedBuf, UrcQueue.getUnusedBuf, h.bufferLen, h.bufferPos]

theorem hasSpaceFor (h : SameData q q') (n : Nat) : q.hasSpaceFor n = q'.hasSpaceFor n := by
  rw [UrcQueue.hasSpaceFor, UrcQueue.hasSpaceFor, h.getUnusedBuf]

theorem strLineLen (h : SameData q q') (e : Nat) : q.strLineLen e = q'.strLineLen e := by
  rw [UrcQueue.strLineLen, UrcQueue.strLineLen, h.pBuffer]

theorem payloadSize (h : SameData q q') (e : Nat) : q.payloadSize e = q'.payloadSize e := by
  rw [UrcQueue.payloadSize, UrcQueue.payloadSize, h.pBuffer]

theorem entrySize (h : SameData q q') (e : Nat) : q.entrySize e = q'.entrySize e := by
  rw [UrcQueue.entrySize, UrcQueue.entrySize, h.strLineLen, h.payloadSize]

theorem entryAt (h : SameData q q') (e : Nat) : q.entryAt e = q'.entryAt e := by
  rw [UrcQueue.entryAt, UrcQueue.entryAt, h.pBuffer, h.strLineLen, h.payloadSize]

theorem committed (h : SameData q q') : q.committed = q'.committed := by
  rw [UrcQueue.committed, UrcQueue.committed, h.pEnqueueEntry, h.bufferPos]

theorem payloadPtr (h : SameData q q') :
    uCxAtUrcQueueEnqueueGetPayloadPtr q = uCxAtUrcQueueEnqueueGetPayloadPtr q' := by
  rw [uCxAtUrcQueueEnqueueGetPayloadPtr, uCxAtUrcQueueEnqueueGetPayloadPtr, h.pEnqueueEntry,
    h.strLineLen, h.getUnusedBuf]

theorem enqueueBegin (h : SameData q q') (t t' : Nat) (line : List UInt8) :
    (uCxAtUrcQueueEnqueueBegin t q line).1 = (uCxAtUrcQueueEnqueueBegin t' q' line).1 ∧
    SameData (uCxAtUrcQueueEnqueueBegin t q line).2 (uCxAtUrcQueueEnqueueBegin t' q' line).2 := by
  have hl : SameData { q with queueMutex := q.queueMutex.lock t }
      { q' with queueMutex := q'.queueMutex.lock t' } := ⟨h.1, h.2, h.3, h.4, h.5, h.6⟩
  have ha := hl.assert (congrArg Option.isNone h.pEnqueueEntry)
  simp only [uCxAtUrcQueueEnqueueBegin]
  generalize UrcQueue.assert { q with queueMutex := q.queueMutex.lock t } q.pEnqueueEntry.isNone = p
    at ha ⊢
  generalize UrcQueue.assert { q' with queueMutex := q'.queueMutex.lock t' } q'.pEnqueueEntry.isNone =
    p' at ha ⊢
  rw [ha.hasSpaceFor line.length]
  cases p'.hasSpaceFor line.length with
  | true =>
    exact ⟨rfl, by simp [ha.pBuffer, ha.bufferPos], ha.bufferLen, by simp [ha.bufferPos],
      by simp [ha.bufferPos], ha.pDequeueEntry, ha.assertFailed⟩
  | false => exact ⟨rfl, ha.1, ha.2, ha.3, ha.4, ha.5, ha.6⟩

theorem enqueueEnd (h : SameData q q') (t t' n : Nat) :
    SameData (uCxAtUrcQueueEnqueueEnd t q n) (uCxAtUrcQueueEnqueueEnd t' q' n) := by
  have ha := h.assert (congrArg Option.isSome h.pEnqueueEntry)
  have hb := ha.assert (congrArg (fun k => decide (n ≤ k)) h.getUnusedBuf)
  exact ⟨by simp [uCxAtUrcQueueEnqueueEnd, h.pBuffer, h.pEnqueueEntry], hb.bufferLen,
    by simp [uCxAtUrcQueueEnqueueEnd, h.bufferPos], rfl, hb.pDequeueEntry, hb.assertFailed⟩

theorem enqueueAbort (h : SameData q q') (t t' : Nat) :
    SameData (uCxAtUrcQueueEnqueueAbort t q) (uCxAtUrcQueueEnqueueAbort t' q') := by
  have ha := h.assert (congrArg Option.isSome h.pEnqueueEntry)
  exact ⟨ha.pBuffer, ha.bufferLen, by simp [uCxAtUrcQueueEnqueueAbort, h.pEnqueueEntry], rfl,
    ha.pDequeueEntry, ha.assertFailed⟩

theorem popEntry (h : SameData q q') (e : Nat) : SameData (q.popEntry e) (q'.popEntry e) := by
  have ha := h.assert (congrArg Option.isSome h.pDequeueEntry)
  have hb := ha.assert (congrArg (· == some e) h.pDequeueEntry)
  simp only [UrcQueue.popEntry]
  generalize (q.assert q.pDequeueEntry.isSome).assert _ = p at hb ⊢
  generalize (q'.assert q'.pDequeueEntry.isSome).assert _ = p' at hb ⊢
  rw [hb.bufferPos, hb.entrySize, hb.pBuffer]
  split
  · exact ⟨rfl, hb.bufferLen, rfl, hb.pEnqueueEntry, hb.pDequeueEntry, hb.assertFailed⟩
  · exact ⟨rfl, hb.bufferLen, rfl, hb.pEnqueueEntry, hb.pDequeueEntry, hb.assertFailed⟩

theorem store (h : SameData q q') (off : Nat) (bytes : List UInt8) :
    SameData { q with pBuffer := ByteMem.store q.pBuffer off bytes }
      { q' with pBuffer := ByteMem.store q'.pBuffer off bytes } :=
  ⟨by rw [h.pBuffer], h.2, h.3, h.4, h.5, h.6⟩

end SameData

end UrcQueue
