import UcxClient.Queue.Refine

/-!
# The assertions of the URC queue

The functions of the queue assert that an enqueue or a dequeue is open, or that none is.
`step_asserted`: none of these assertions fails in a step of `QueueSys`. It rests on what
`pDequeueEntry` says about the dequeuing threads.
-/

open ByteMem

namespace QueueSys

open UrcQueue

/-- No assertion has failed, and `pDequeueEntry` is set while a thread has an entry. -/
structure Asserted (s : QueueSys) : Prop where
  passed : s.q.assertFailed = false
  handed : ∀ t p, s.deq t = .holding p → s.q.pDequeueEntry = some p
  free : s.q.pDequeueEntry ≠ none → ∃ t, s.deq t = .ending ∨ ∃ p, s.deq t = .holding p

theorem asserted_init (pBuffer : List UInt8) : Asserted (init pBuffer) :=
  ⟨rfl, nofun, fun h => absurd rfl h⟩

section
variable {s s' : QueueSys} {a : Fifo.State Urc} {act : Act} {e : Option Ev}

/-- A step of the enqueuing thread. -/
theorem Asserted.keep (h : Asserted s) (hf : s'.q.assertFailed = s.q.assertFailed)
    (hp : s'.q.pDequeueEntry = s.q.pDequeueEntry) (hd : s'.deq = s.deq) : Asserted s' := by
  refine ⟨hf.trans h.passed, fun t p ht => ?_, fun hne => ?_⟩
  · rw [hp]
    exact h.handed t p (hd ▸ ht)
  · rw [hd]
    exact h.free (hp ▸ hne)

/-- A step of a dequeuing thread that is not about to hold an entry and leaves `pDequeueEntry`. -/
theorem Asserted.move (h : Asserted s) {t : Nat} {pc : DeqPc}
    (hd : s'.deq = Function.update s.deq t pc)
    (ht : s.deq t = .idle ∨ s.deq t = .locked ∨ ∃ p, s.deq t = .checked p)
    (hpc : ∀ p, pc ≠ .holding p) (hf : s'.q.assertFailed = s.q.assertFailed)
    (hp : s'.q.pDequeueEntry = s.q.pDequeueEntry) : Asserted s' := by
  refine ⟨hf.trans h.passed, fun u p hu => ?_, fun hne => ?_⟩
  · rw [hd] at hu
    by_cases hut : u = t
    · subst hut
      rw [Function.update_self] at hu
      exact absurd hu (hpc p)
    · rw [Function.update_of_ne hut] at hu
      rw [hp]
      exact h.handed u p hu
  · rw [hp] at hne
    obtain ⟨u, hu⟩ := h.free hne
    have hut : u ≠ t := by
      rintro rfl
      rcases ht with ht | ht | ⟨p, ht⟩ <;> rw [ht] at hu <;> rcases hu with hu | ⟨q, hu⟩ <;> cases hu
    refine ⟨u, ?_⟩
    rw [hd, Function.update_of_ne hut]
    exact hu

theorem step_asserted (hrep : Rep s a) (h : Asserted s) (hs : step s act = some (s', e)) :
    Asserted s' := by
  obtain ⟨used, free, -, -, -, hp⟩ := hrep.layout
  cases act with
  | enqueueBegin line =>
    obtain ⟨he, rfl, -⟩ := step_enqueueBegin hs
    have hnone : s.q.pEnqueueEntry.isNone = true := by simp [hrep.pEnqueueEntry_none he]
    refine h.keep ?_ ?_ rfl <;> simp only [uCxAtUrcQueueEnqueueBegin, hnone] <;> split <;> rfl
  | writePayload i b =>
    obtain ⟨-, -, rfl, -⟩ := step_writePayload hs
    exact h.keep rfl rfl rfl
  | enqueueEnd n =>
    obtain ⟨line, he, hn, rfl, -⟩ := step_enqueueEnd hs
    have hsome : s.q.pEnqueueEntry.isSome = true := by simp [hp, he]
    have hroom : n ≤ s.q.getUnusedBuf := Nat.le_trans hn (Nat.mod_le _ _)
    refine h.keep ?_ ?_ rfl <;> simp [uCxAtUrcQueueEnqueueEnd, hsome, hroom]
  | enqueueAbort =>
    obtain ⟨⟨line, he⟩, rfl, -⟩ := step_enqueueAbort hs
    have hsome : s.q.pEnqueueEntry.isSome = true := by simp [hp, he]
    refine h.keep ?_ ?_ rfl <;> simp [uCxAtUrcQueueEnqueueAbort, hsome]
  | dequeueTryLock t =>
    obtain ⟨hidle, -, ⟨-, rfl⟩ | ⟨hav, rfl⟩⟩ := step_dequeueTryLock hs
    · exact h
    · -- the lock is free, so that no thread has an entry
      have hnone : s.q.pDequeueEntry = none := by
        apply Classical.byContradiction
        intro hne
        obtain ⟨u, hu⟩ := h.free hne
        have hni : s.deq u ≠ .idle := by
          rcases hu with hu | ⟨p, hu⟩ <;> simp [hu]
        have hown := hrep.dequeueMutex u hni
        simp [Mutex.available, hrep.ordinary.2, hown] at hav
      refine h.move rfl (.inl hidle) (by rintro _ ⟨⟩) ?_ ?_ <;> simp [tryLockDequeue, hav, hnone]
  | dequeuePeek t =>
    obtain ⟨hpc, -, rfl, -⟩ := step_dequeuePeek hs
    exact h.move rfl (.inr (.inl hpc)) (by rintro _ ⟨⟩) rfl rfl
  | dequeueHand t =>
    obtain ⟨p, hpc, rfl, -⟩ | ⟨hpc, rfl, -⟩ := step_dequeueHand hs
    · have hni : s.deq t ≠ .idle := by simp [hpc]
      refine ⟨h.passed, fun u q hu => ?_, fun _ => ⟨t, .inr ⟨p, by simp⟩⟩⟩
      by_cases hut : u = t
      · subst hut
        simp only [Function.update_self, DeqPc.holding.injEq] at hu
        exact congrArg some hu
      · simp only [Function.update_of_ne hut, hrep.idle_of_ne hni hut] at hu
        cases hu
    · exact h.move rfl (.inr (.inr ⟨_, hpc⟩)) (by rintro _ ⟨⟩) rfl rfl
  | writeData t i b =>
    obtain ⟨p, -, -, rfl, -⟩ := step_writeData hs
    exact h.keep rfl rfl rfl
  | dequeuePop t =>
    obtain ⟨p, hpc, -, rfl, -⟩ := step_dequeuePop hs
    have hde := h.handed t p hpc
    have hni : s.deq t ≠ .idle := by simp [hpc]
    have hpop : (s.q.popEntry p).assertFailed = s.q.assertFailed ∧
        (s.q.popEntry p).pDequeueEntry = s.q.pDequeueEntry := by
      simp only [popEntry]
      split <;> simp [hde]
    refine ⟨hpop.1.trans h.passed, fun u q hu => ?_, fun _ => ⟨t, .inl (by simp)⟩⟩
    by_cases hut : u = t
    · subst hut
      simp at hu
    · simp only [Function.update_of_ne hut, hrep.idle_of_ne hni hut] at hu
      cases hu
  | dequeueRelease t =>
    obtain ⟨hpc, rfl, -⟩ := step_dequeueRelease hs
    have hni : s.deq t ≠ .idle := by simp [hpc]
    refine ⟨h.passed, fun u q hu => ?_, fun hne => absurd rfl hne⟩
    by_cases hut : u = t
    · subst hut
      simp at hu
    · simp only [Function.update_of_ne hut, hrep.idle_of_ne hni hut] at hu
      cases hu

end

/-! ## A queue with other locks -/

/-- The bytes of `q` are those of `s`, whose entries are `a`. -/
structure Tracks (q : UrcQueue) (s : QueueSys) (a : Fifo.State Urc) : Prop where
  data : SameData q s.q
  rep : Rep s a
  asserted : Asserted s

/-- What a step of the enqueuing thread leaves alone. -/
structure SameDeq (s s' : QueueSys) : Prop where
  deq : s'.deq = s.deq
  dequeueMutex : s'.q.dequeueMutex = s.q.dequeueMutex

section
variable {q : UrcQueue} {s : QueueSys} {a : Fifo.State Urc}

theorem Tracks.enqueueBegin (h : Tracks q s a) (hn : s.enq = none) (t : Nat) {line : List UInt8}
    (hshort : q.hasSpaceFor line.length = true → line.length < 65536) :
    ∃ s', Tracks (uCxAtUrcQueueEnqueueBegin t q line).2 s' a ∧ SameDeq s s' ∧
      s'.enq = if (uCxAtUrcQueueEnqueueBegin t q line).1 then some line else none := by
  obtain ⟨hret, hdata⟩ := h.data.enqueueBegin t enqThread line
  have hav : s.q.queueMutex.available enqThread = true := by
    simp [Mutex.available, (h.rep.queueMutex hn).1]
  have hs : step s (.enqueueBegin line) = some (⟨(uCxAtUrcQueueEnqueueBegin enqThread s.q line).2,
      if (uCxAtUrcQueueEnqueueBegin enqThread s.q line).1 then some line else none, s.deq⟩, none) := by
    simp only [step, hn, hav, and_self, ↓reduceIte]
  have hok : LineShort s (.enqueueBegin line) := by
    intro line' heq hsp
    cases heq
    exact hshort (by rw [h.data.hasSpaceFor, hsp])
  refine ⟨_, ⟨hdata, (h.rep.enqueueBegin hok hs).2, step_asserted h.rep h.asserted hs⟩,
    ⟨rfl, ?_⟩, by rw [hret]⟩
  simp only [uCxAtUrcQueueEnqueueBegin]
  split <;> simp

theorem Tracks.enqueueEnd (h : Tracks q s a) (he : s.enq ≠ none) (t : Nat) {n : Nat}
    (hn : n ≤ s.space) :
    ∃ s' u, Tracks (uCxAtUrcQueueEnqueueEnd t q n) s' { a with items := a.items ++ [u] } ∧
      SameDeq s s' ∧ s'.enq = none ∧ q.committed < (uCxAtUrcQueueEnqueueEnd t q n).committed ∧
      (uCxAtUrcQueueEnqueueEnd t q n).entryAt q.committed = u := by
  obtain ⟨line, he⟩ := Option.ne_none_iff_exists'.1 he
  have hdata := h.data.enqueueEnd t enqThread n
  have hs : step s (.enqueueEnd n) = some (⟨uCxAtUrcQueueEnqueueEnd enqThread s.q n, none, s.deq⟩,
      some (.push ⟨line, load s.q.pBuffer s.payloadPtr n⟩)) := by
    simp only [step, he, hn, ↓reduceIte]
  obtain ⟨u, -, hrep, hlt, hu⟩ := h.rep.enqueueEnd hs
  refine ⟨_, u, ⟨hdata, hrep, step_asserted h.rep h.asserted hs⟩, ⟨rfl, ?_⟩, rfl, ?_, ?_⟩
  · simp [uCxAtUrcQueueEnqueueEnd]
  · rw [h.data.committed, hdata.committed]
    exact hlt
  · rw [h.data.committed, hdata.entryAt]
    exact hu

theorem Tracks.enqueueAbort (h : Tracks q s a) (he : s.enq ≠ none) (t : Nat) :
    ∃ s', Tracks (uCxAtUrcQueueEnqueueAbort t q) s' a ∧ SameDeq s s' ∧ s'.enq = none := by
  have hs : step s .enqueueAbort =
      some (⟨uCxAtUrcQueueEnqueueAbort enqThread s.q, none, s.deq⟩, none) := by
    simp only [step, Option.isSome_iff_ne_none.2 he, ↓reduceIte]
  refine ⟨_, ⟨h.data.enqueueAbort t enqThread, (h.rep.enqueueAbort hs).2,
    step_asserted h.rep h.asserted hs⟩, ⟨rfl, ?_⟩, rfl⟩
  simp [uCxAtUrcQueueEnqueueAbort]

theorem Tracks.storePayload (h : Tracks q s a) (he : s.enq ≠ none) (i : Nat) (bytes : List UInt8) :
    ∃ s', Tracks { q with pBuffer := store q.pBuffer (s.payloadPtr + i) bytes } s' a ∧
      SameDeq s s' ∧ s'.enq = s.enq ∧ s'.payloadPtr = s.payloadPtr ∧ s'.space = s.space := by
  obtain ⟨line, he'⟩ := Option.ne_none_iff_exists'.1 he
  have hrep := h.rep.storePayload he i bytes
  refine ⟨_, ⟨h.data.store _ bytes, hrep, h.asserted.keep rfl rfl rfl⟩, ⟨rfl, rfl⟩, rfl, ?_, rfl⟩
  rw [(hrep.payloadPtr_eq he').1, (h.rep.payloadPtr_eq he').1]

end

/-! ## The committed entries -/

theorem committed_enqueueBegin (t : Nat) {q : UrcQueue} (line : List UInt8)
    (h : q.pEnqueueEntry = none) : (uCxAtUrcQueueEnqueueBegin t q line).2.committed = q.committed := by
  simp only [uCxAtUrcQueueEnqueueBegin]
  split <;> simp [committed, h]

theorem committed_enqueueAbort (t : Nat) {q : UrcQueue} (h : q.pEnqueueEntry ≠ none) :
    (uCxAtUrcQueueEnqueueAbort t q).committed = q.committed := by
  obtain ⟨e, he⟩ := Option.ne_none_iff_exists'.1 h
  simp [uCxAtUrcQueueEnqueueAbort, committed, he]

end QueueSys
