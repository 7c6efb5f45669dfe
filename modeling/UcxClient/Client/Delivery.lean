import UcxClient.Client.Calls

/-!
# The delivery of the queued URCs

`Stored q us`: the queue holds the entries `us`, and neither an enqueue nor a dequeue is under way
(`Holds` where the buffer is smaller than 2 GiB). A line that is enqueued where there is room becomes the
last entry, with the payload that is stored behind it (`Opened.enqueueEnd`). `processUrcs` calls the URC
callback for the entries in order and leaves the queue empty (`processUrcs_stored`). It does so only
where the lengths of the lines fit their field and the entries take less than 2 GiB
(`fits_of_processUrcs`).
-/

open ByteMem

namespace UrcQueue

/-- The bytes that the entries take. -/
def encodeAll (us : List Urc) : List UInt8 := us.flatMap Urc.encode

@[simp] theorem encodeAll_nil : encodeAll [] = [] := rfl

@[simp] theorem encodeAll_cons (u : Urc) (us : List Urc) :
    encodeAll (u :: us) = u.encode ++ encodeAll us := rfl

theorem encodeAll_append (us vs : List Urc) : encodeAll (us ++ vs) = encodeAll us ++ encodeAll vs :=
  List.flatMap_append

@[simp] theorem encodeAll_concat (us : List Urc) (u : Urc) :
    encodeAll (us ++ [u]) = encodeAll us ++ u.encode := by simp [encodeAll]

/-- The queue holds the entries `us` and nobody is using it. -/
structure Holds (q : UrcQueue) (us : List Urc) : Prop where
  buffer : ∃ free, q.pBuffer = encodeAll us ++ free
  length : q.pBuffer.length = q.bufferLen
  pos : q.bufferPos = (encodeAll us).length
  small : q.bufferLen < 2 ^ 31
  enqueue : q.pEnqueueEntry = none
  queueFree : q.queueMutex.Free
  dequeueFree : q.dequeueMutex.Free

/-- The same of a queue of any size. -/
structure Stored (q : UrcQueue) (us : List Urc) : Prop where
  buffer : ∃ free, q.pBuffer = encodeAll us ++ free
  length : q.pBuffer.length = q.bufferLen
  pos : q.bufferPos = (encodeAll us).length
  enqueue : q.pEnqueueEntry = none
  queueFree : q.queueMutex.Free
  dequeueFree : q.dequeueMutex.Free

/-- Behind the entries `us` thread `t` enqueues `line`, with the payload `payload`. -/
structure Opened (t : Nat) (q : UrcQueue) (us : List Urc) (line payload : List UInt8) : Prop where
  buffer : ∃ free, q.pBuffer = encodeAll us ++ newEntry line ++ payload ++ free
  length : q.pBuffer.length = q.bufferLen
  pos : q.bufferPos = (encodeAll us).length + (newEntry line).length
  entry : q.pEnqueueEntry = some (encodeAll us).length
  queueFree : ∃ m : Mutex, m.Free ∧ q.queueMutex = m.lock t
  dequeueFree : q.dequeueMutex.Free

/-- The entry `u` has been handed out to thread `t`, which may have changed its data; `us` follow. -/
structure Lent (t : Nat) (q : UrcQueue) (u : Urc) (us : List Urc) : Prop where
  buffer : ∃ d free, d.length = u.data.length ∧
    q.pBuffer = u16Bytes u.line.length ++ u16Bytes u.payload.length ++ d ++ encodeAll us ++ free
  length : q.pBuffer.length = q.bufferLen
  pos : q.bufferPos = (encodeAll (u :: us)).length
  enqueue : q.pEnqueueEntry = none
  queueFree : q.queueMutex.Free
  dequeueFree : ∃ m : Mutex, m.Free ∧ q.dequeueMutex = m.lock t

variable {q : UrcQueue} {u : Urc} {us : List Urc}

theorem Holds.stored (h : Holds q us) : Stored q us :=
  ⟨h.buffer, h.length, h.pos, h.enqueue, h.queueFree, h.dequeueFree⟩

theorem Stored.holds (h : Stored q us) (hsmall : q.bufferLen < 2 ^ 31) : Holds q us :=
  ⟨h.buffer, h.length, h.pos, hsmall, h.enqueue, h.queueFree, h.dequeueFree⟩

theorem Stored.bufferPos_le (h : Stored q us) : q.bufferPos ≤ q.bufferLen := by
  obtain ⟨free, hb⟩ := h.buffer
  rw [h.pos, ← h.length, hb, List.length_append]
  omega

/-! ## Enqueueing -/

/-- A line with room for its entry is accepted. -/
theorem Stored.enqueueBegin (h : Stored q us) (t : Nat) {line : List UInt8}
    (hs : q.hasSpaceFor line.length = true)
    (hroom : q.bufferPos + (4 + line.length + 1) ≤ q.bufferLen) :
    Opened t (uCxAtUrcQueueEnqueueBegin t q line).2 us line [] := by
  obtain ⟨free, hb⟩ := h.buffer
  have hfree : 4 + line.length + 1 ≤ free.length := by
    have hlen := h.length
    rw [hb, List.length_append, ← h.pos] at hlen
    omega
  obtain ⟨q', hq', hb', hp', hl', he', hm', hd', -⟩ := enqueueBegin_eq t hs hb h.pos hfree
  rw [hq']
  refine ⟨⟨free.drop (4 + line.length + 1), by rw [hb', List.append_nil]⟩, ?_, by rw [hp', h.pos],
    by rw [he', h.pos], ⟨q.queueMutex, h.queueFree, hm'⟩, ?_⟩
  · have hlen := h.length
    rw [hl', ← hlen, hb', hb]
    simp only [List.length_append, List.length_drop, length_newEntry]
    omega
  · rw [hd']
    exact h.dequeueFree

section
variable {t : Nat} {line payload : List UInt8}

/-- The payload goes behind the line, if the length of this fits its field. -/
theorem Opened.payloadPtr (h : Opened t q us line payload) (hline : line.length < 65536) :
    uCxAtUrcQueueEnqueueGetPayloadPtr q = (q.bufferPos, q.getUnusedBuf % 65536) := by
  obtain ⟨free, hb⟩ := h.buffer
  have hb' : q.pBuffer = encodeAll us ++ u16Bytes line.length ++
      (u16Bytes 0 ++ line ++ [0] ++ payload ++ free) := by simp [hb, newEntry]
  have hlen : q.strLineLen (encodeAll us).length = line.length := by
    rw [strLineLen, hb']
    exact getU16_u16Bytes (encodeAll us) _ line.length _ rfl hline
  rw [uCxAtUrcQueueEnqueueGetPayloadPtr, h.entry, Option.getD_some, hlen, h.pos, length_newEntry]
  simp only [sizeofUrcEntry, Nat.add_assoc]

/-- More bytes of the payload are stored behind the others. -/
theorem Opened.store (h : Opened t q us line payload) {off : Nat}
    (hoff : off = q.bufferPos + payload.length) {bytes : List UInt8}
    (hroom : off + bytes.length ≤ q.bufferLen) :
    Opened t { q with pBuffer := ByteMem.store q.pBuffer off bytes } us line (payload ++ bytes) := by
  obtain ⟨free, hb⟩ := h.buffer
  have hlen := h.length
  have hpos := h.pos
  rw [hb, List.length_append, List.length_append, List.length_append] at hlen
  have hsplit := store_mid (encodeAll us ++ newEntry line ++ payload) (free.take bytes.length)
    (free.drop bytes.length) bytes off
    (by rw [hoff, h.pos, List.length_append, List.length_append]) (by rw [List.length_take]; omega)
  rw [List.append_assoc _ (free.take _), List.take_append_drop, ← hb] at hsplit
  refine ⟨⟨free.drop bytes.length, by rw [hsplit, List.append_assoc _ payload]⟩, ?_, h.pos, h.entry,
    h.queueFree, h.dequeueFree⟩
  simp only [length_store]
  exact h.length

/-- The line becomes the last entry, with its payload. -/
theorem Opened.enqueueEnd (h : Opened t q us line payload) :
    Stored (uCxAtUrcQueueEnqueueEnd t q payload.length) (us ++ [⟨line, payload⟩]) := by
  obtain ⟨free, hb⟩ := h.buffer
  obtain ⟨m, hm, hlock⟩ := h.queueFree
  refine ⟨⟨free, ?_⟩, ?_, ?_, rfl, ?_, ?_⟩
  · rw [encodeAll_concat]
    exact enqueueEnd_eq t hb h.entry
  · simp only [uCxAtUrcQueueEnqueueEnd, pBuffer_assert, bufferLen_assert, length_store, h.length]
  · simp only [uCxAtUrcQueueEnqueueEnd, bufferPos_assert, encodeAll_concat, h.pos, List.length_append,
      length_newEntry, Urc.length_encode, Urc.length_data]
    omega
  · rw [queueMutex_enqueueEnd, hlock, hm.unlock_lock]
    exact hm
  · simp only [uCxAtUrcQueueEnqueueEnd, dequeueMutex_assert]
    exact h.dequeueFree

/-- An enqueue that is given up leaves the entries before. -/
theorem Opened.enqueueAbort (h : Opened t q us line payload) :
    Stored (uCxAtUrcQueueEnqueueAbort t q) us := by
  obtain ⟨free, hb⟩ := h.buffer
  obtain ⟨m, hm, hlock⟩ := h.queueFree
  refine ⟨⟨newEntry line ++ payload ++ free, ?_⟩, ?_, ?_, rfl, ?_, ?_⟩
  · simp only [uCxAtUrcQueueEnqueueAbort, pBuffer_assert, hb, List.append_assoc]
  · simp only [uCxAtUrcQueueEnqueueAbort, pBuffer_assert, bufferLen_assert, h.length]
  · simp only [uCxAtUrcQueueEnqueueAbort, pEnqueueEntry_assert, h.entry, Option.getD_some]
  · rw [queueMutex_enqueueAbort, hlock, hm.unlock_lock]
    exact hm
  · simp only [uCxAtUrcQueueEnqueueAbort, dequeueMutex_assert]
    exact h.dequeueFree

end

/-- In a queue of less than 2 GiB a line needs room for its entry. -/
theorem Stored.enqueueLine (h : Stored q us) (t : Nat) {line : List UInt8}
    (hroom : q.bufferPos + (4 + line.length + 1) ≤ q.bufferLen) (hsmall : q.bufferLen < 2 ^ 31) :
    q.hasSpaceFor line.length = true ∧ Opened t (uCxAtUrcQueueEnqueueBegin t q line).2 us line [] := by
  have hs : q.hasSpaceFor line.length = true :=
    (hasSpaceFor_iff h.bufferPos_le hsmall (by omega)).2 hroom
  exact ⟨hs, h.enqueueBegin t hs hroom⟩

/-- A line with room for its entry is enqueued behind the others. -/
theorem Holds.enqueueLine (h : Holds q us) (t : Nat) {line : List UInt8}
    (hroom : q.bufferPos + (4 + line.length + 1) ≤ q.bufferLen) :
    (uCxAtUrcQueueEnqueueBegin t q line).1 = true ∧
    Holds (uCxAtUrcQueueEnqueueEnd t (uCxAtUrcQueueEnqueueBegin t q line).2 0)
      (us ++ [⟨line, []⟩]) ∧
    (uCxAtUrcQueueEnqueueEnd t (uCxAtUrcQueueEnqueueBegin t q line).2 0).bufferLen =
      q.bufferLen := by
  have hsmall := h.small
  obtain ⟨hs, hopen⟩ := h.stored.enqueueLine t hroom hsmall
  have hlen : (uCxAtUrcQueueEnqueueEnd t (uCxAtUrcQueueEnqueueBegin t q line).2 0).bufferLen =
      q.bufferLen := by
    simp only [uCxAtUrcQueueEnqueueEnd, bufferLen_assert, bufferLen_enqueueBegin]
  exact ⟨(enqueueBegin_fst t q line).trans hs, hopen.enqueueEnd.holds (hlen ▸ hsmall), hlen⟩

/-! ## One entry -/

theorem Stored.bufferPos_pos (h : Stored q (u :: us)) : 0 < q.bufferPos := by
  rw [h.pos, encodeAll_cons, List.length_append, Urc.length_encode]
  omega

theorem Stored.dequeueBegin (h : Stored q (u :: us)) (t : Nat) :
    ∃ q', uCxAtUrcQueueDequeueBegin t q = (some 0, q') ∧ q'.pBuffer = q.pBuffer ∧ Lent t q' u us := by
  have hav := h.dequeueFree.available t
  have hpos := h.bufferPos_pos
  obtain ⟨free, hb⟩ := h.buffer
  have heq : uCxAtUrcQueueDequeueBegin t q = (some 0, (uCxAtUrcQueueDequeueBegin t q).2) := by
    simp [uCxAtUrcQueueDequeueBegin, tryLockDequeue, hav, peekEntry, hpos]
  refine ⟨_, heq, ?_⟩
  simp only [uCxAtUrcQueueDequeueBegin, tryLockDequeue, hav, ↓reduceIte, peekEntry, bufferPos_assert,
    hpos, handEntry, pBuffer_assert, true_and]
  refine ⟨⟨u.data, free, rfl, ?_⟩, ?_, ?_, ?_, ?_, ⟨q.dequeueMutex, h.dequeueFree, ?_⟩⟩
  · simp [hb, Urc.encode]
  · simpa using h.length
  · simpa using h.pos
  · simpa using h.enqueue
  · simpa [h.queueFree.unlock_lock] using h.queueFree
  · simp

theorem Stored.dequeueBegin_nil (h : Stored q []) (t : Nat) :
    ∃ q', uCxAtUrcQueueDequeueBegin t q = (none, q') ∧ Stored q' [] ∧ q'.bufferLen = q.bufferLen := by
  have hav := h.dequeueFree.available t
  have hpos : ¬0 < q.bufferPos := by
    rw [h.pos]
    simp
  have heq : uCxAtUrcQueueDequeueBegin t q = (none, (uCxAtUrcQueueDequeueBegin t q).2) := by
    simp [uCxAtUrcQueueDequeueBegin, tryLockDequeue, hav, peekEntry, hpos]
  refine ⟨_, heq, ?_⟩
  simp only [uCxAtUrcQueueDequeueBegin, tryLockDequeue, hav, ↓reduceIte, peekEntry, bufferPos_assert,
    hpos, handEntry]
  refine ⟨⟨⟨q.pBuffer, ?_⟩, ?_, ?_, ?_, ?_, ?_⟩, ?_⟩
  · simp
  · simpa using h.length
  · simpa using h.pos
  · simpa using h.enqueue
  · simpa [h.queueFree.unlock_lock] using h.queueFree
  · simpa [h.dequeueFree.unlock_lock] using h.dequeueFree
  · simp

/-- The callback is given the entry as it was enqueued. -/
theorem Stored.viewEntry {q' : UrcQueue} (h : Stored q (u :: us)) (hu : u.Fits)
    (hb : q'.pBuffer = q.pBuffer) : q'.viewEntry 0 = u.view := by
  obtain ⟨free, hq⟩ := h.buffer
  rw [encodeAll_cons, List.append_assoc, ← hb] at hq
  exact viewHead_eq hq hu

theorem Lent.entrySize {t : Nat} (h : Lent t q u us) (hu : u.Fits) :
    q.entrySize 0 = u.data.length := by
  obtain ⟨d, free, -, hb⟩ := h.buffer
  have hb' : q.pBuffer = u16Bytes u.line.length ++ u16Bytes u.payload.length ++
      (d ++ encodeAll us ++ free) := by simp [hb]
  rw [entrySize_append hb' hu.1 hu.2, Urc.length_data]

/-- The callback may change the data of the entry, but not its length. -/
theorem Lent.edit {t : Nat} (h : Lent t q u us) (hu : u.Fits) (edit : Callback) :
    Lent t (q.editEntry 0 edit) u us := by
  obtain ⟨d, free, hd, hb⟩ := h.buffer
  have hdata : q.entryData 0 = d := by
    have := load_mid (u16Bytes u.line.length ++ u16Bytes u.payload.length) d (encodeAll us ++ free)
      sizeofUrcEntry u.data.length rfl hd.symm
    rw [entryData, h.entrySize hu, hb, Nat.zero_add]
    simpa using this
  obtain ⟨es, hes⟩ : ∃ es, es = (edit d).take d.length := ⟨_, rfl⟩
  have hle : es.length ≤ d.length := by
    rw [hes, List.length_take]
    omega
  refine ⟨⟨es ++ d.drop es.length, free, ?_, ?_⟩, ?_, h.pos, h.enqueue, h.queueFree, h.dequeueFree⟩
  · rw [List.length_append, List.length_drop, ← hd]
    omega
  · have hmid := store_mid (u16Bytes u.line.length ++ u16Bytes u.payload.length) (d.take es.length)
      (d.drop es.length ++ encodeAll us ++ free) es sizeofUrcEntry rfl
      (by rw [List.length_take]; omega)
    simp only [editEntry, hdata, ← hes, hb, Nat.zero_add]
    simp only [List.append_assoc] at hmid ⊢
    rwa [← List.append_assoc (d.take _), List.take_append_drop] at hmid
  · simp only [editEntry, length_store]
    exact h.length

theorem Lent.dequeueEnd {t : Nat} (h : Lent t q u us) (hu : u.Fits) (hlt : q.bufferPos < 2 ^ 31) :
    Stored (uCxAtUrcQueueDequeueEnd t q 0) us := by
  obtain ⟨d, free, hd, hb⟩ := h.buffer
  obtain ⟨m, hm, hlock⟩ := h.dequeueFree
  have hpos : q.bufferPos = 4 + d.length + (encodeAll us).length := by
    rw [h.pos, encodeAll_cons, List.length_append, Urc.length_encode, hd]
  obtain ⟨free', h1, h2, h3⟩ := popEntry_eq (q := { q with queueMutex := q.queueMutex.lock t }) hb
    hu.1 hu.2 (hd.trans u.length_data) hpos hlt
  unfold uCxAtUrcQueueDequeueEnd
  refine ⟨⟨free', ?_⟩, ?_, ?_, ?_, ?_, ?_⟩
  · rw [pBuffer_releaseDequeue, h1]
  · rw [pBuffer_releaseDequeue, h2, bufferLen_releaseDequeue, bufferLen_popEntry]
    exact h.length
  · rw [bufferPos_releaseDequeue, h3]
  · rw [pEnqueueEntry_releaseDequeue, pEnqueueEntry_popEntry]
    exact h.enqueue
  · rw [queueMutex_releaseDequeue, queueMutex_popEntry, h.queueFree.unlock_lock]
    exact h.queueFree
  · rw [dequeueMutex_releaseDequeue, dequeueMutex_popEntry, hlock, hm.unlock_lock]
    exact hm

theorem bufferLen_dequeueBegin (t : Nat) (q : UrcQueue) :
    (uCxAtUrcQueueDequeueBegin t q).2.bufferLen = q.bufferLen := by
  unfold uCxAtUrcQueueDequeueBegin tryLockDequeue
  by_cases hav : q.dequeueMutex.available t = true
  · simp only [hav, ↓reduceIte]
    cases hp : UrcQueue.peekEntry ({ q with dequeueMutex := q.dequeueMutex.lock t }.assert
        q.pDequeueEntry.isNone) <;> simp [handEntry]
  · simp [hav]

theorem bufferLen_dequeueEnd (t e : Nat) (q : UrcQueue) :
    (uCxAtUrcQueueDequeueEnd t q e).bufferLen = q.bufferLen := by
  unfold uCxAtUrcQueueDequeueEnd
  rw [bufferLen_releaseDequeue, bufferLen_popEntry]

/-! ## What the bytes of the buffer have no part in -/

/-- The callback cannot change the length of an entry. -/
theorem entrySize_editEntry (q : UrcQueue) (edit : Callback) :
    (q.editEntry 0 edit).entrySize 0 = q.entrySize 0 := by
  have htake : ∀ bytes, (store q.pBuffer (0 + sizeofUrcEntry) bytes).take 4 = q.pBuffer.take 4 :=
    fun bytes => take_store_of_le q.pBuffer (0 + sizeofUrcEntry) 4 bytes (Nat.le_refl 4)
  simp only [entrySize, strLineLen, payloadSize, editEntry]
  rw [getU16_congr_take (htake _) (show 0 + 2 ≤ 4 by decide),
    getU16_congr_take (htake _) (show 0 + 2 + 2 ≤ 4 by decide)]

theorem entrySize_lt (q : UrcQueue) (e : Nat) : q.entrySize e < 131072 := by
  have hl : q.strLineLen e < 65536 := AtClient.getU16_lt _ _
  have hp : q.payloadSize e < 65536 := AtClient.getU16_lt _ _
  rw [entrySize]
  omega

theorem bufferPos_dequeueEnd_eq (t e : Nat) (q : UrcQueue) :
    (uCxAtUrcQueueDequeueEnd t q e).bufferPos =
      if 0 < toInt32 q.bufferPos - toInt32 ((sizeofUrcEntry + q.entrySize e : Nat) : Int) then
        sizeSub q.bufferPos (sizeofUrcEntry + q.entrySize e)
      else 0 := by
  have hsize : ({ q with queueMutex := q.queueMutex.lock t } : UrcQueue).entrySize e = q.entrySize e := rfl
  unfold uCxAtUrcQueueDequeueEnd
  rw [bufferPos_releaseDequeue]
  simp only [popEntry, bufferPos_assert, entrySize_assert, hsize]
  split
  · rfl
  · rfl

/-- The end of a dequeue leaves what is behind the entry, or nothing: if more than 2 GiB are in use the
number of the remaining bytes is negative as an `int32_t`. -/
theorem bufferPos_dequeueEnd (t e : Nat) {q : UrcQueue} {n : Nat}
    (hpos : q.bufferPos = sizeofUrcEntry + q.entrySize e + n) :
    (uCxAtUrcQueueDequeueEnd t q e).bufferPos = 0 ∨
    ((uCxAtUrcQueueDequeueEnd t q e).bufferPos = n ∧ (n < 2 ^ 31 → q.bufferPos < 2 ^ 31)) := by
  have hsize := q.entrySize_lt e
  have htot : toInt32 ((sizeofUrcEntry + q.entrySize e : Nat) : Int) = (sizeofUrcEntry + q.entrySize e : Nat) :=
    toInt32_of_lt (by omega) (by simp only [sizeofUrcEntry]; omega)
  rw [bufferPos_dequeueEnd_eq, htot]
  by_cases hrem : (0 : Int) < toInt32 q.bufferPos - (sizeofUrcEntry + q.entrySize e : Nat)
  · right
    rw [if_pos hrem]
    refine ⟨by rw [sizeSub_of_le (by omega)]; omega, fun hn => ?_⟩
    apply Classical.byContradiction
    intro hge
    have hneg := toInt32_neg (n := q.bufferPos) (by omega) (by simp only [sizeofUrcEntry] at hpos; omega)
    omega
  · left
    rw [if_neg hrem]

end UrcQueue

/-! ## `processUrcs` -/

open UrcQueue

namespace AtClient

/-- **Every queued URC is delivered once, in order**, and the callback finds of the client what it was
before, but for the queue. -/
theorem processUrcs_stored (t : Nat) (edit : Callback) {us : List Urc} (hus : ∀ u ∈ us, u.Fits)
    {fuel : Nat} {c : AtClient} (h : Stored c.urcQueue us) (hcb : c.urcCallback = true)
    (hsmall : c.urcQueue.bufferPos < 2 ^ 31) (hf : c.urcQueue.bufferPos < fuel) :
    ∃ calls q', c.processUrcs t edit fuel = some (calls, { c with urcQueue := q' }) ∧
      Stored q' [] ∧ q'.bufferLen = c.urcQueue.bufferLen ∧ calls.map Prod.snd = us.map Urc.view ∧
      ∀ x ∈ calls, ∃ q, x.1 = { c with urcQueue := q } := by
  induction us generalizing fuel c with
  | nil =>
    obtain ⟨fuel, rfl⟩ : ∃ n, fuel = n + 1 := ⟨fuel - 1, by omega⟩
    obtain ⟨q', hq', hh, hlen⟩ := h.dequeueBegin_nil t
    refine ⟨[], q', ?_, hh, hlen, rfl, fun x hx => absurd hx List.not_mem_nil⟩
    rw [processUrcs, hq']
  | cons u us ih =>
    obtain ⟨fuel, rfl⟩ : ∃ n, fuel = n + 1 := ⟨fuel - 1, by omega⟩
    obtain ⟨q1, hq1, hb1, hl1⟩ := h.dequeueBegin t
    have hlen1 : q1.bufferLen = c.urcQueue.bufferLen := by
      rw [← bufferLen_dequeueBegin t c.urcQueue, hq1]
    have hu := hus u List.mem_cons_self
    have hedit : c.afterCallback edit q1 0 = q1.editEntry 0 edit := by
      rw [afterCallback, if_pos hcb]
    obtain ⟨q2, hq2⟩ : ∃ q2, q2 = uCxAtUrcQueueDequeueEnd t (q1.editEntry 0 edit) 0 := ⟨_, rfl⟩
    have hpos1 : (q1.editEntry 0 edit).bufferPos < 2 ^ 31 := by
      rw [(hl1.edit hu edit).pos, ← h.pos]
      exact hsmall
    have hend : Stored q2 us := by
      rw [hq2]
      exact (hl1.edit hu edit).dequeueEnd hu hpos1
    have hlen2 : q2.bufferLen = c.urcQueue.bufferLen := by
      rw [hq2, bufferLen_dequeueEnd]
      exact hlen1
    have hlt : q2.bufferPos < c.urcQueue.bufferPos := by
      rw [h.pos, encodeAll_cons, List.length_append, Urc.length_encode, ← hend.pos]
      omega
    obtain ⟨calls, q', h1, h2, h3, h4, h5⟩ := ih (fun v hv => hus v (List.mem_cons_of_mem _ hv))
      (c := { c with urcQueue := q2 }) hend hcb (Nat.lt_trans hlt hsmall)
      (Nat.lt_of_lt_of_le hlt (Nat.le_of_lt_succ hf))
    refine ⟨({ c with urcQueue := q1 }, q1.viewEntry 0) :: calls, q', ?_, h2, h3.trans hlen2, ?_, ?_⟩
    · rw [processUrcs, hq1]
      simp only [hedit, ← hq2, h1, Option.map_some, if_pos hcb]
    · rw [List.map_cons, List.map_cons, h4, h.viewEntry hu hb1]
    · intro x hx
      rcases List.mem_cons.1 hx with rfl | hx
      · exact ⟨q1, rfl⟩
      · obtain ⟨q, hq⟩ := h5 x hx
        exact ⟨q, hq⟩

theorem processUrcs_holds (t : Nat) (edit : Callback) {us : List Urc} (hus : ∀ u ∈ us, u.Fits)
    {fuel : Nat} {c : AtClient} (h : Holds c.urcQueue us) (hcb : c.urcCallback = true)
    (hf : c.urcQueue.bufferPos < fuel) :
    ∃ calls q', c.processUrcs t edit fuel = some (calls, { c with urcQueue := q' }) ∧
      Holds q' [] ∧ calls.map Prod.snd = us.map Urc.view ∧
      ∀ x ∈ calls, ∃ q, x.1 = { c with urcQueue := q } := by
  have hle := h.stored.bufferPos_le
  have hsmall := h.small
  obtain ⟨calls, q', h1, h2, h3, h4⟩ := processUrcs_stored t edit hus h.stored hcb (by omega) hf
  exact ⟨calls, q', h1, h2.holds (h3 ▸ hsmall), h4⟩

/-- An empty queue delivers nothing. -/
theorem processUrcs_empty {t : Nat} {edit : Callback} {fuel : Nat} {c c' : AtClient}
    {calls : List (AtClient × Urc.View)} (hpos : c.urcQueue.bufferPos = 0)
    (hp : c.processUrcs t edit fuel = some (calls, c')) : calls = [] := by
  cases fuel with
  | zero => cases hp
  | succ fuel =>
    rw [processUrcs] at hp
    rcases hq : uCxAtUrcQueueDequeueBegin t c.urcQueue with ⟨_ | e, q1⟩
    · rw [hq] at hp
      exact (Prod.mk.inj (Option.some.inj hp)).1.symm
    · obtain ⟨hlt, -⟩ := dequeueBegin_some hq
      omega

/-- Only URCs whose lengths fit their fields are delivered as they were queued, and only if they take
less than 2 GiB, whatever the bytes of the buffer are. -/
theorem fits_of_processUrcs (t : Nat) (edit : Callback) {us : List Urc} {fuel : Nat} {c c' : AtClient}
    (hpos : c.urcQueue.bufferPos = (encodeAll us).length) (hcb : c.urcCallback = true)
    {calls : List (AtClient × Urc.View)} (hp : c.processUrcs t edit fuel = some (calls, c'))
    (hcalls : calls.map Prod.snd = us.map Urc.view) :
    (∀ u ∈ us, u.Fits) ∧ c.urcQueue.bufferPos < 2 ^ 31 := by
  induction us generalizing fuel c calls with
  | nil =>
    refine ⟨fun u hu => absurd hu List.not_mem_nil, ?_⟩
    rw [hpos]
    simp
  | cons u us ih =>
    cases fuel with
    | zero => cases hp
    | succ fuel =>
      rw [processUrcs] at hp
      rcases hq : uCxAtUrcQueueDequeueBegin t c.urcQueue with ⟨_ | e, q1⟩
      · rw [hq] at hp
        obtain ⟨rfl, -⟩ := Prod.mk.inj (Option.some.inj hp)
        cases hcalls
      · obtain ⟨-, rfl, hpos1, -⟩ := dequeueBegin_some hq
        rw [hq] at hp
        obtain ⟨⟨calls', c1⟩, hp', hy⟩ := Option.map_eq_some_iff.1 hp
        simp only [hcb, ↓reduceIte, Prod.mk.injEq] at hy
        obtain ⟨rfl, rfl⟩ := hy
        rw [List.map_cons, List.map_cons, List.cons.injEq] at hcalls
        obtain ⟨hview, hviews⟩ := hcalls
        -- the lengths that the callback is told
        have hl : q1.strLineLen 0 = u.line.length := congrArg Urc.View.strLineLen hview
        have hn : q1.payloadSize 0 = u.payload.length := congrArg Urc.View.payloadSize hview
        have hsize : q1.entrySize 0 = u.data.length := by rw [entrySize, hl, hn, Urc.length_data]
        have hu : u.Fits := ⟨hl ▸ getU16_lt _ _, hn ▸ getU16_lt _ _⟩
        have hedit : c.afterCallback edit q1 0 = q1.editEntry 0 edit := by
          rw [afterCallback, if_pos hcb]
        have hedit1 : (q1.editEntry 0 edit).bufferPos = c.urcQueue.bufferPos := hpos1
        have hsplit : (q1.editEntry 0 edit).bufferPos =
            sizeofUrcEntry + (q1.editEntry 0 edit).entrySize 0 + (encodeAll us).length := by
          rw [hedit1, hpos, entrySize_editEntry, hsize, encodeAll_cons, List.length_append, Urc.length_encode]
          rfl
        have hend := bufferPos_dequeueEnd t 0 hsplit
        rw [hedit] at hp'
        rw [hedit1] at hend
        generalize uCxAtUrcQueueDequeueEnd t (q1.editEntry 0 edit) 0 = q2 at hend hp'
        rcases hend with hend | ⟨hend, hsmall⟩
        · obtain rfl := processUrcs_empty (c := { c with urcQueue := q2 }) hend hp'
          obtain rfl : us = [] := List.map_eq_nil_iff.1 hviews.symm
          refine ⟨List.forall_mem_cons.2 ⟨hu, fun v hv => absurd hv List.not_mem_nil⟩, ?_⟩
          have hlt := q1.entrySize_lt 0
          rw [hpos, encodeAll_cons, List.length_append, Urc.length_encode, ← hsize, encodeAll_nil, List.length_nil]
          omega
        · obtain ⟨hfits, hlt⟩ := ih (c := { c with urcQueue := q2 }) hend hcb hp' hviews
          exact ⟨List.forall_mem_cons.2 ⟨hu, hfits⟩, hsmall (hend ▸ hlt)⟩

end AtClient
