import UcxClient.Queue.System

/-!
# The URC queue refines a FIFO

`refines_fifo` is the main theorem: in a run in which no line of 2^31 bytes or more passes the
comparison with the free space, the events are those of a FIFO of (line, payload) pairs, so that
what `uCxAtUrcQueueDequeueBegin` hands out is, in order and once each, what was enqueued. It rests
on

* `step_rep`: every step is matched by the FIFO on its event;
* `contents_unfinished`: an enqueue changes the committed part of the buffer at its end only;
* `lent_frame`: nobody but the thread that was handed an entry changes its bytes.

A longer line can wrap to a negative `int32_t` and is then accepted whatever the free space is
(`overlong_line_overflows`).
-/

open ByteMem Transition

namespace QueueSys

open UrcQueue

section
variable {s s' : QueueSys} {a : Fifo.State Urc} {act : Act} {e : Option Ev}

theorem step_rep (h : Rep s a) (hok : LineShort s act) (hs : step s act = some (s', e)) :
    ∃ a', accepts (Fifo.step Urc.view) a e.toList = some a' ∧ Rep s' a' := by
  have same : e = none ∧ Rep s' a →
      ∃ a', accepts (Fifo.step Urc.view) a e.toList = some a' ∧ Rep s' a' := by
    rintro ⟨rfl, h'⟩
    exact ⟨a, rfl, h'⟩
  cases act with
  | enqueueBegin line => exact same (h.enqueueBegin hok hs)
  | writePayload i b => exact same (h.writePayload hs)
  | enqueueEnd n =>
    obtain ⟨u, rfl, h', -⟩ := h.enqueueEnd hs
    exact ⟨_, rfl, h'⟩
  | enqueueAbort => exact same (h.enqueueAbort hs)
  | dequeueTryLock t => exact same (h.dequeueTryLock hs)
  | dequeuePeek t =>
    obtain ⟨rfl | ⟨rfl, hnil⟩, h'⟩ := h.dequeuePeek hs
    · exact same ⟨rfl, h'⟩
    · exact ⟨a, by simp [accepts, run, Fifo.step, hnil], h'⟩
  | dequeueHand t =>
    rcases h.dequeueHand hs with h' | ⟨u, us, rfl, hu, hl, h'⟩
    · exact same h'
    · exact ⟨_, by simp [accepts, run, Fifo.step, hu, hl], h'⟩
  | writeData t i b => exact same (h.writeData hs)
  | dequeuePop t =>
    obtain ⟨rfl, hl, h'⟩ := h.dequeuePop hs
    exact ⟨_, by simp [accepts, run, Fifo.step, hl], h'⟩
  | dequeueRelease t => exact same (h.dequeueRelease hs)

/-- No step changes the length of the buffer. -/
theorem bufferLen_step (hs : step s act = some (s', e)) : s'.q.bufferLen = s.q.bufferLen := by
  cases act with
  | enqueueBegin line =>
    obtain ⟨-, rfl, -⟩ := step_enqueueBegin hs
    exact bufferLen_enqueueBegin _ _ _
  | writePayload i b =>
    obtain ⟨-, -, rfl, -⟩ := step_writePayload hs
    rfl
  | enqueueEnd n =>
    obtain ⟨line, -, -, rfl, -⟩ := step_enqueueEnd hs
    simp [uCxAtUrcQueueEnqueueEnd]
  | enqueueAbort =>
    obtain ⟨-, rfl, -⟩ := step_enqueueAbort hs
    simp [uCxAtUrcQueueEnqueueAbort]
  | dequeueTryLock t =>
    obtain ⟨-, -, ⟨-, rfl⟩ | ⟨hav, rfl⟩⟩ := step_dequeueTryLock hs
    · rfl
    · simp [tryLockDequeue, hav]
  | dequeuePeek t =>
    obtain ⟨-, -, rfl, -⟩ := step_dequeuePeek hs
    rfl
  | dequeueHand t =>
    obtain ⟨p, -, rfl, -⟩ | ⟨-, rfl, -⟩ := step_dequeueHand hs
    · rfl
    · rfl
  | writeData t i b =>
    obtain ⟨p, -, -, rfl, -⟩ := step_writeData hs
    rfl
  | dequeuePop t =>
    obtain ⟨p, -, -, rfl, -⟩ := step_dequeuePop hs
    simp
  | dequeueRelease t =>
    obtain ⟨-, rfl, -⟩ := step_dequeueRelease hs
    rfl

/-- In a buffer of at most 65535 bytes a line of 2^16 bytes or more does not fit. -/
theorem LineFits.short (h : LineFits s act) (hrep : Rep s a) (hlen : s.q.bufferLen ≤ 65535) :
    LineShort s act := by
  intro line ha hsp
  have := (hasSpaceFor_iff hrep.bufferPos_le hrep.small (h line ha hsp)).1 hsp
  omega

/-! ## The committed part of the buffer -/

/-- The bytes of the entries whose enqueue has ended. -/
def contents (s : QueueSys) : List UInt8 :=
  s.q.pBuffer.take (s.q.pEnqueueEntry.getD s.q.bufferPos)

theorem Rep.region_contents (h : Rep s a) : Region a (contents s) := by
  obtain ⟨used, free, hb, hreg, hpos, hp⟩ := h.layout
  have hlen : s.q.pEnqueueEntry.getD s.q.bufferPos = used.length := by
    rw [hp, hpos]
    cases s.enq <;> simp [openBytes]
  rwa [contents, hlen, hb, List.append_assoc, List.take_left]

/-- The steps of an enqueue but its `uCxAtUrcQueueEnqueueEnd`. -/
def Act.Unfinished : Act → Prop
  | .enqueueBegin _ | .writePayload _ _ | .enqueueAbort => True
  | _ => False

theorem Rep.pEnqueueEntry_none (h : Rep s a) (he : s.enq = none) : s.q.pEnqueueEntry = none := by
  obtain ⟨used, free, -, -, -, hp⟩ := h.layout
  rw [hp, he]
  rfl

/-- A refused line leaves everything as it was. -/
theorem enqueueBegin_refused_eq (h : Rep s a) {line : List UInt8}
    (hs : step s (.enqueueBegin line) = some (s', e)) (hn : s'.enq = none) : s' = s := by
  obtain ⟨he, rfl, -⟩ := step_enqueueBegin hs
  obtain ⟨ho, hc⟩ := h.queueMutex he
  cases hsp : s.q.hasSpaceFor line.length with
  | false =>
    rw [enqueueBegin_refused _ hsp ho hc (h.pEnqueueEntry_none he)]
    obtain ⟨q, enq, deq⟩ := s
    cases he
    rfl
  | true =>
    simp only [enqueueBegin_fst, hsp, if_pos] at hn
    cases hn

theorem enqueueBegin_accepted {line : List UInt8}
    (hs : step s (.enqueueBegin line) = some (s', e)) (hn : s'.enq ≠ none) :
    s.enq = none ∧ s'.q.pBuffer = store s.q.pBuffer s.q.bufferPos (newEntry line) ∧
      s'.q.pEnqueueEntry = some s.q.bufferPos ∧ s'.deq = s.deq := by
  obtain ⟨he, rfl, -⟩ := step_enqueueBegin hs
  cases hsp : s.q.hasSpaceFor line.length with
  | true =>
    obtain ⟨h1, h2, -⟩ := UrcQueue.enqueueBegin_accepted (t := enqThread) hsp
    exact ⟨he, h1, h2, rfl⟩
  | false =>
    simp only [enqueueBegin_fst, hsp] at hn
    exact absurd rfl hn

theorem contents_unfinished (h : Rep s a) (hu : act.Unfinished) (hs : step s act = some (s', e)) :
    contents s' = contents s := by
  obtain ⟨used, free, hb, -, hpos, hp⟩ := h.layout
  cases act with
  | enqueueBegin line =>
    by_cases hn : s'.enq = none
    · rw [enqueueBegin_refused_eq h hs hn]
    · obtain ⟨he, hb', hp', -⟩ := enqueueBegin_accepted hs hn
      rw [contents, contents, hb', hp', h.pEnqueueEntry_none he]
      exact take_store_of_le _ _ _ _ (Nat.le_refl _)
  | writePayload i b =>
    obtain ⟨⟨line, he⟩, -, rfl, -⟩ := step_writePayload hs
    rw [contents, (h.payloadPtr_eq he).1]
    refine take_store_of_le _ _ _ _ ?_
    rw [hp, hpos, he]
    simp only [Option.map_some, Option.getD_some]
    omega
  | enqueueAbort =>
    obtain ⟨⟨line, he⟩, rfl, -⟩ := step_enqueueAbort hs
    simp [contents, uCxAtUrcQueueEnqueueAbort, hp, he]
  | _ => exact hu.elim

/-! ## The entry that is handed out -/

/-- The steps of everybody but thread `t` as the holder of an entry. -/
def Act.Foreign (t : Nat) : Act → Prop
  | .writeData u _ _ | .dequeuePop u => u ≠ t
  | _ => True

/-- The bytes of the entry at `pEntry`, its length fields included. -/
def entryBytes (q : UrcQueue) (pEntry : Nat) : List UInt8 :=
  load q.pBuffer pEntry (sizeofUrcEntry + q.entrySize pEntry)

/-- A thread that holds the head holds a whole entry that precedes every other byte in use. -/
theorem Rep.holding (h : Rep s a) {t p : Nat} (ht : s.deq t = .holding p) :
    p = 0 ∧ a.lent = true ∧ sizeofUrcEntry + s.q.entrySize 0 ≤
      s.q.pEnqueueEntry.getD s.q.bufferPos := by
  have hd := h.deq t
  rw [ht] at hd
  obtain ⟨rfl, hl⟩ := hd
  refine ⟨rfl, hl, ?_⟩
  obtain ⟨used, free, hb, hreg, hpos, hp⟩ := h.layout
  have hlen : s.q.pEnqueueEntry.getD s.q.bufferPos = used.length := by
    rw [hp, hpos]
    cases s.enq <;> simp [openBytes]
  rw [Region, if_pos hl] at hreg
  obtain ⟨u, us, d, hu, hdl, rfl⟩ := hreg
  have hfit := h.fits u (by simp [hu])
  have hb0 : s.q.pBuffer = u16Bytes u.line.length ++ u16Bytes u.payload.length ++
      (d ++ (us.flatMap Urc.encode ++ openBytes s.enq ++ free)) := by
    rw [hb]; simp only [List.append_assoc]
  rw [hlen, entrySize_append hb0 hfit.1 hfit.2]
  simp only [sizeofUrcEntry, List.length_append, length_u16Bytes, hdl, Urc.length_data]
  omega

/-- Bytes stored behind the head leave it as it is. -/
theorem entryBytes_store {q q' : UrcQueue} {off : Nat} {bs : List UInt8}
    (hq : q'.pBuffer = store q.pBuffer off bs) (hoff : sizeofUrcEntry + q.entrySize 0 ≤ off) :
    entryBytes q' 0 = entryBytes q 0 := by
  have htake : ∀ n ≤ off, q'.pBuffer.take n = q.pBuffer.take n := fun n hn => by
    rw [hq, take_store_of_le _ _ _ _ hn]
  have hget : ∀ i < off, q'.pBuffer.getD i 0 = q.pBuffer.getD i 0 := fun i hi => by
    have := congrArg (fun l => l.getD i 0) (htake (i + 1) hi)
    simpa [List.getD_eq_getElem?_getD, List.getElem?_take] using this
  have h4 : 4 ≤ off := by simp only [sizeofUrcEntry] at hoff; omega
  have hu16 : ∀ i, i + 2 ≤ 4 → getU16 q'.pBuffer i = getU16 q.pBuffer i := fun i hi => by
    rw [getU16, getU16, hget i (by omega), hget (i + 1) (by omega)]
  have hsize : q'.entrySize 0 = q.entrySize 0 := by
    rw [entrySize, entrySize, strLineLen, strLineLen, payloadSize, payloadSize, hu16 0 (by omega),
      hu16 2 (by omega)]
  rw [entryBytes, entryBytes, hsize, load, load, List.drop_zero, List.drop_zero, htake _ hoff]

/-- **The bytes of an entry handed out stay as they are** until its holder changes or returns it. -/
theorem lent_frame (h : Rep s a) {t p : Nat} (ht : s.deq t = .holding p) (hf : act.Foreign t)
    (hs : step s act = some (s', e)) :
    s'.deq t = .holding p ∧ entryBytes s'.q p = entryBytes s.q p := by
  obtain ⟨rfl, hl, hle⟩ := h.holding ht
  have hni : s.deq t ≠ .idle := by simp [ht]
  have hother : ∀ u, u ≠ t → s.deq u = .idle := fun u hu => h.idle_of_ne hni hu
  -- A dequeuing thread that is not idle is `t`, and `t` is at another point.
  have hpc : ∀ u pc, s.deq u = pc → pc ≠ .idle → pc ≠ .holding 0 → False := by
    intro u pc hu h1 h2
    by_cases hut : u = t
    · subst hut; exact h2 (hu.symm.trans ht)
    · exact h1 (hu.symm.trans (hother u hut))
  have hpos : ∀ x, s.q.pEnqueueEntry.getD s.q.bufferPos ≤ x → sizeofUrcEntry + s.q.entrySize 0 ≤ x :=
    fun x hx => Nat.le_trans hle hx
  obtain ⟨used, free, hb, -, hbpos, hp⟩ := h.layout
  cases act with
  | enqueueBegin line =>
    by_cases hn : s'.enq = none
    · rw [enqueueBegin_refused_eq h hs hn]
      exact ⟨ht, rfl⟩
    · obtain ⟨he, hb', -, hd'⟩ := enqueueBegin_accepted hs hn
      rw [hd']
      exact ⟨ht, entryBytes_store hb' (hpos _ (by rw [h.pEnqueueEntry_none he]; exact Nat.le_refl _))⟩
  | writePayload i b =>
    obtain ⟨⟨line, he⟩, -, rfl, -⟩ := step_writePayload hs
    refine ⟨ht, entryBytes_store rfl (hpos _ ?_)⟩
    rw [(h.payloadPtr_eq he).1, hp, hbpos, he]
    simp only [Option.map_some, Option.getD_some]
    omega
  | enqueueEnd n =>
    obtain ⟨line, he, -, rfl, -⟩ := step_enqueueEnd hs
    refine ⟨ht, entryBytes_store (by simp only [uCxAtUrcQueueEnqueueEnd, pBuffer_assert]; rfl) (hpos _ ?_)⟩
    simp [hp, he]
  | enqueueAbort =>
    obtain ⟨-, rfl, -⟩ := step_enqueueAbort hs
    exact ⟨ht, by simp [entryBytes, uCxAtUrcQueueEnqueueAbort, entrySize, strLineLen, payloadSize]⟩
  | dequeueTryLock u =>
    have hunav : s.q.dequeueMutex.available u = false := by
      simp [Mutex.available, h.ordinary.2, h.dequeueMutex t hni]
    obtain ⟨-, -, ⟨-, rfl⟩ | ⟨hav, -⟩⟩ := step_dequeueTryLock hs
    · exact ⟨ht, rfl⟩
    · rw [hunav] at hav
      cases hav
  | dequeuePeek u => exact (hpc u _ (step_dequeuePeek hs).1 (by rintro ⟨⟩) (by rintro ⟨⟩)).elim
  | dequeueHand u =>
    obtain ⟨p, hg, -⟩ | ⟨hg, -⟩ := step_dequeueHand hs
    · exact (hpc u _ hg (by rintro ⟨⟩) (by rintro ⟨⟩)).elim
    · exact (hpc u _ hg (by rintro ⟨⟩) (by rintro ⟨⟩)).elim
  | writeData u i b =>
    simp only [step, hother u hf] at hs
    cases hs
  | dequeuePop u =>
    simp only [step, hother u hf] at hs
    cases hs
  | dequeueRelease u => exact (hpc u _ (step_dequeueRelease hs).1 (by rintro ⟨⟩) (by rintro ⟨⟩)).elim

end

/-! ## The main theorem -/

theorem enqueueBegin_overflow (s : QueueSys) {line : List UInt8} (he : s.enq = none)
    (ho : s.q.queueMutex.owner = none) (hsp : s.q.hasSpaceFor line.length = true)
    (hlt : s.q.bufferLen < s.q.bufferPos + (newEntry line).length) :
    ∃ s', step s (.enqueueBegin line) = some (s', none) ∧ s'.q.bufferLen < s'.q.bufferPos := by
  obtain ⟨-, -, hlen, hpos⟩ := UrcQueue.enqueueBegin_accepted (t := enqThread) hsp
  refine ⟨_, if_pos ⟨he, by simp [Mutex.available, ho]⟩, ?_⟩
  simp only
  rw [hlen, hpos]
  exact hlt

end QueueSys
