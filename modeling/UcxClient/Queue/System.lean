import Mathlib.Logic.Function.Basic
import UcxClient.Queue.Layout

/-!
# The URC queue under concurrent use

`QueueSys` is the queue with one thread that enqueues and any number of threads that dequeue. The
enqueuing thread calls `uCxAtUrcQueueEnqueueBegin` and, when it returns true, writes into the
payload area it is given and calls `uCxAtUrcQueueEnqueueEnd` or `uCxAtUrcQueueEnqueueAbort`. A
dequeuing thread calls `uCxAtUrcQueueDequeueBegin`, may change the data bytes of the entry it is
handed, and calls `uCxAtUrcQueueDequeueEnd`. One step is what a thread does between two points at
which another thread can run: the sections under `queueMutex` are one step each, taken when the
mutex is available.

`Rep s a` ties a state to the abstract queue `a` of (line, payload) pairs: the used part of the
buffer is `Region a`, followed by at most one open entry; the head is lent exactly while a thread
holds it. Each step keeps it (`step_rep`), matching the event it emits.
-/

open ByteMem

namespace QueueSys

/-- Where a dequeuing thread is. -/
inductive DeqPc where
  /-- outside the dequeue functions -/
  | idle
  /-- in `uCxAtUrcQueueDequeueBegin`, `dequeueMutex` locked, before `queueMutex` is locked -/
  | locked
  /-- in `uCxAtUrcQueueDequeueBegin`, after `queueMutex` was unlocked -/
  | checked (pEntry : Option Nat)
  /-- between `uCxAtUrcQueueDequeueBegin` and `uCxAtUrcQueueDequeueEnd` -/
  | holding (pEntry : Nat)
  /-- in `uCxAtUrcQueueDequeueEnd`, after `queueMutex` was unlocked -/
  | ending
  deriving DecidableEq

/-- The identity of the enqueuing thread. -/
def enqThread : Nat := 0

end QueueSys

open QueueSys in
/-- The queue and the program counters of its users; `enq` is the line of the open enqueue. -/
structure QueueSys where
  q : UrcQueue
  enq : Option (List UInt8)
  deq : Nat → DeqPc

namespace QueueSys

open UrcQueue

def init (pBuffer : List UInt8) : QueueSys := ⟨.init false pBuffer, none, fun _ => .idle⟩

inductive Act where
  | enqueueBegin (line : List UInt8)
  | writePayload (i : Nat) (b : UInt8)
  | enqueueEnd (payloadSize : Nat)
  | enqueueAbort
  | dequeueTryLock (t : Nat)
  | dequeuePeek (t : Nat)
  | dequeueHand (t : Nat)
  | writeData (t i : Nat) (b : UInt8)
  | dequeuePop (t : Nat)
  | dequeueRelease (t : Nat)

abbrev Ev := Fifo.Event Urc Urc.View

/-- The space that `uCxAtUrcQueueEnqueueGetPayloadPtr` reports. -/
def space (s : QueueSys) : Nat := (uCxAtUrcQueueEnqueueGetPayloadPtr s.q).2

def payloadPtr (s : QueueSys) : Nat := (uCxAtUrcQueueEnqueueGetPayloadPtr s.q).1

def step (s : QueueSys) : Act → Option (QueueSys × Option Ev)
  | .enqueueBegin line =>
    if s.enq = none ∧ s.q.queueMutex.available enqThread then
      let r := uCxAtUrcQueueEnqueueBegin enqThread s.q line
      some ({ s with q := r.2, enq := if r.1 then some line else none }, none)
    else none
  | .writePayload i b =>
    if s.enq.isSome ∧ i < s.space then
      some ({ s with q := { s.q with pBuffer := store s.q.pBuffer (s.payloadPtr + i) [b] } }, none)
    else none
  | .enqueueEnd payloadSize =>
    match s.enq with
    | some line =>
      if payloadSize ≤ s.space then
        some ({ s with q := uCxAtUrcQueueEnqueueEnd enqThread s.q payloadSize, enq := none },
          some (.push ⟨line, load s.q.pBuffer s.payloadPtr payloadSize⟩))
      else none
    | none => none
  | .enqueueAbort =>
    if s.enq.isSome then
      some ({ s with q := uCxAtUrcQueueEnqueueAbort enqThread s.q, enq := none }, none)
    else none
  | .dequeueTryLock t =>
    if s.deq t = .idle then
      let r := tryLockDequeue t s.q
      some ({ s with q := r.2, deq := if r.1 then Function.update s.deq t .locked else s.deq }, none)
    else none
  | .dequeuePeek t =>
    if s.deq t = .locked ∧ s.q.queueMutex.available t then
      some ({ s with deq := Function.update s.deq t (.checked s.q.peekEntry) },
        if s.q.peekEntry = none then some .empty else none)
    else none
  | .dequeueHand t =>
    match s.deq t with
    | .checked (some pEntry) =>
      some ({ s with q := handEntry t s.q (some pEntry),
                     deq := Function.update s.deq t (.holding pEntry) }, some (.front s.q.viewHead))
    | .checked none =>
      some ({ s with q := handEntry t s.q none, deq := Function.update s.deq t .idle }, none)
    | _ => none
  | .writeData t i b =>
    match s.deq t with
    | .holding pEntry =>
      if i < s.q.entrySize pEntry then
        some ({ s with q := { s.q with
          pBuffer := store s.q.pBuffer (pEntry + sizeofUrcEntry + i) [b] } }, none)
      else none
    | _ => none
  | .dequeuePop t =>
    match s.deq t with
    | .holding pEntry =>
      if s.q.queueMutex.available t then
        some ({ s with q := s.q.popEntry pEntry, deq := Function.update s.deq t .ending }, some .pop)
      else none
    | _ => none
  | .dequeueRelease t =>
    if s.deq t = .ending then
      some ({ s with q := releaseDequeue t s.q, deq := Function.update s.deq t .idle }, none)
    else none

/-! ## What a step does -/

section
variable {s s' : QueueSys} {e : Option Ev} {t i n : Nat} {b : UInt8} {line : List UInt8}

theorem step_enqueueBegin (h : step s (.enqueueBegin line) = some (s', e)) : s.enq = none ∧
    s' = { s with
      q := (uCxAtUrcQueueEnqueueBegin enqThread s.q line).2
      enq := if (uCxAtUrcQueueEnqueueBegin enqThread s.q line).1 then some line else none } ∧ e = none := by
  simp only [step] at h
  split at h
  · next hg =>
    cases h
    exact ⟨hg.1, rfl, rfl⟩
  · cases h

theorem step_writePayload (h : step s (.writePayload i b) = some (s', e)) :
    (∃ line, s.enq = some line) ∧ i < s.space ∧
      s' = { s with q := { s.q with pBuffer := store s.q.pBuffer (s.payloadPtr + i) [b] } } ∧ e = none := by
  simp only [step] at h
  split at h
  · next hg =>
    cases h
    exact ⟨Option.isSome_iff_exists.1 hg.1, hg.2, rfl, rfl⟩
  · cases h

theorem step_enqueueEnd (h : step s (.enqueueEnd n) = some (s', e)) :
    ∃ line, s.enq = some line ∧ n ≤ s.space ∧
      s' = { s with q := uCxAtUrcQueueEnqueueEnd enqThread s.q n, enq := none } ∧
      e = some (.push ⟨line, load s.q.pBuffer s.payloadPtr n⟩) := by
  simp only [step] at h
  split at h
  · next line he =>
    split at h
    · next hn =>
      cases h
      exact ⟨line, he, hn, rfl, rfl⟩
    · cases h
  · cases h

theorem step_enqueueAbort (h : step s .enqueueAbort = some (s', e)) :
    (∃ line, s.enq = some line) ∧
      s' = { s with q := uCxAtUrcQueueEnqueueAbort enqThread s.q, enq := none } ∧ e = none := by
  simp only [step] at h
  split at h
  · next hg =>
    cases h
    exact ⟨Option.isSome_iff_exists.1 hg, rfl, rfl⟩
  · cases h

/-- The mutex is locked, or nothing changes. -/
theorem step_dequeueTryLock (h : step s (.dequeueTryLock t) = some (s', e)) :
    s.deq t = .idle ∧ e = none ∧ (s.q.dequeueMutex.available t = false ∧ s' = s ∨
      s.q.dequeueMutex.available t = true ∧
        s' = { s with q := (tryLockDequeue t s.q).2, deq := Function.update s.deq t .locked }) := by
  simp only [step] at h
  split at h
  · next hidle =>
    cases hav : s.q.dequeueMutex.available t with
    | false =>
      simp only [tryLockDequeue, hav] at h
      cases h
      exact ⟨hidle, rfl, .inl ⟨rfl, rfl⟩⟩
    | true =>
      have hlock : (tryLockDequeue t s.q).1 = true := by simp [tryLockDequeue, hav]
      rw [hlock, if_pos rfl] at h
      cases h
      exact ⟨hidle, rfl, .inr ⟨rfl, rfl⟩⟩
  · cases h

theorem step_dequeuePeek (h : step s (.dequeuePeek t) = some (s', e)) :
    s.deq t = .locked ∧ s.q.queueMutex.available t = true ∧
      s' = { s with deq := Function.update s.deq t (.checked s.q.peekEntry) } ∧
      e = if s.q.peekEntry = none then some .empty else none := by
  simp only [step] at h
  split at h
  · next hg =>
    cases h
    exact ⟨hg.1, hg.2, rfl, rfl⟩
  · cases h

/-- The entry is handed to the thread, or the thread is told that there is none. -/
theorem step_dequeueHand (h : step s (.dequeueHand t) = some (s', e)) :
    (∃ p, s.deq t = .checked (some p) ∧
      s' = { s with q := handEntry t s.q (some p), deq := Function.update s.deq t (.holding p) } ∧
      e = some (.front s.q.viewHead)) ∨
    s.deq t = .checked none ∧
      s' = { s with q := handEntry t s.q none, deq := Function.update s.deq t .idle } ∧ e = none := by
  simp only [step] at h
  split at h
  · next p hpc =>
    cases h
    exact .inl ⟨p, hpc, rfl, rfl⟩
  · next hpc =>
    cases h
    exact .inr ⟨hpc, rfl, rfl⟩
  · cases h

theorem step_writeData (h : step s (.writeData t i b) = some (s', e)) :
    ∃ p, s.deq t = .holding p ∧ i < s.q.entrySize p ∧
      s' = { s with q := { s.q with pBuffer := store s.q.pBuffer (p + sizeofUrcEntry + i) [b] } } ∧ e = none := by
  simp only [step] at h
  split at h
  · next p hpc =>
    split at h
    · next hi =>
      cases h
      exact ⟨p, hpc, hi, rfl, rfl⟩
    · cases h
  · cases h

theorem step_dequeuePop (h : step s (.dequeuePop t) = some (s', e)) :
    ∃ p, s.deq t = .holding p ∧ s.q.queueMutex.available t = true ∧
      s' = { s with q := s.q.popEntry p, deq := Function.update s.deq t .ending } ∧ e = some .pop := by
  simp only [step] at h
  split at h
  · next p hpc =>
    split at h
    · next hav =>
      obtain ⟨rfl, rfl⟩ := Prod.mk.inj (Option.some.inj h)
      exact ⟨p, hpc, hav, rfl, rfl⟩
    · cases h
  · cases h

theorem step_dequeueRelease (h : step s (.dequeueRelease t) = some (s', e)) :
    s.deq t = .ending ∧
      s' = { s with q := releaseDequeue t s.q, deq := Function.update s.deq t .idle } ∧ e = none := by
  simp only [step] at h
  split at h
  · next hpc =>
    cases h
    exact ⟨hpc, rfl, rfl⟩
  · cases h

end

/-- No line of 2^31 bytes or more passes the comparison of its length with the free space. -/
def LineFits (s : QueueSys) (a : Act) : Prop :=
  ∀ line, a = .enqueueBegin line → s.q.hasSpaceFor line.length = true → line.length < 2 ^ 31

/-- A line that passes the comparison has a length that is a `uint16_t`. -/
def LineShort (s : QueueSys) (a : Act) : Prop :=
  ∀ line, a = .enqueueBegin line → s.q.hasSpaceFor line.length = true → line.length < 65536

/-! ## The representation -/

/-- The bytes of the open entry. -/
def openBytes : Option (List UInt8) → List UInt8
  | none => []
  | some line => newEntry line

/-- What the program counter of a dequeuing thread says about the abstract queue. -/
def DeqOk (a : Fifo.State Urc) : DeqPc → Prop
  | .idle => True
  | .locked => a.lent = false
  | .checked none => a.lent = false
  | .checked (some pEntry) => pEntry = 0 ∧ a.lent = false ∧ a.items ≠ []
  | .holding pEntry => pEntry = 0 ∧ a.lent = true
  | .ending => a.lent = false

structure Rep (s : QueueSys) (a : Fifo.State Urc) : Prop where
  layout : ∃ used free, s.q.pBuffer = used ++ openBytes s.enq ++ free ∧ Region a used ∧
    s.q.bufferPos = used.length + (openBytes s.enq).length ∧
    s.q.pEnqueueEntry = s.enq.map fun _ => used.length
  len : s.q.bufferLen = s.q.pBuffer.length
  small : s.q.bufferLen < 2 ^ 31
  fits : ∀ u ∈ a.items, u.Fits
  openFits : ∀ line, s.enq = some line → line.length < 65536
  lent : a.lent = true → a.items ≠ [] ∧ ∃ t, s.deq t = .holding 0
  deq : ∀ t, DeqOk a (s.deq t)
  dequeueMutex : ∀ t, s.deq t ≠ .idle → s.q.dequeueMutex.owner = some t
  ordinary : s.q.queueMutex.reentrant = false ∧ s.q.dequeueMutex.reentrant = false
  queueMutex : s.enq = none → s.q.queueMutex.owner = none ∧ s.q.queueMutex.count = 0
  openMutex : s.enq ≠ none → s.q.queueMutex.owner ≠ none ∧ s.q.queueMutex.count = 1

theorem rep_init {pBuffer : List UInt8} (h : pBuffer.length < 2 ^ 31) :
    Rep (init pBuffer) Fifo.empty where
  layout := ⟨[], pBuffer, by simp [init, UrcQueue.init, openBytes, Region, Fifo.empty]⟩
  len := rfl
  small := h
  fits := by simp [Fifo.empty]
  openFits := nofun
  lent := by simp [Fifo.empty]
  deq := fun _ => trivial
  dequeueMutex := fun t ht => absurd rfl ht
  ordinary := ⟨rfl, rfl⟩
  queueMutex := fun _ => ⟨rfl, rfl⟩
  openMutex := fun h => absurd rfl h

namespace Rep

variable {s : QueueSys} {a : Fifo.State Urc}

/-- The used part of the buffer lies in the buffer. -/
theorem bufferPos_le (h : Rep s a) : s.q.bufferPos ≤ s.q.bufferLen := by
  obtain ⟨used, free, hb, -, hpos, -⟩ := h.layout
  rw [h.len, hb, hpos]
  simp

/-- An empty buffer holds no entry. -/
theorem items_nil (h : Rep s a) (hpos : s.q.bufferPos = 0) : a.items = [] := by
  obtain ⟨used, free, -, hreg, hp, -⟩ := h.layout
  have hused : used = [] := by
    apply List.eq_nil_of_length_eq_zero
    omega
  subst hused
  unfold Region at hreg
  split at hreg
  · obtain ⟨u, us, d, -, -, hnil⟩ := hreg
    simp [u16Bytes] at hnil
  · cases hi : a.items with
    | nil => rfl
    | cons u us =>
      rw [hi] at hreg
      simp [Urc.encode, u16Bytes] at hreg

/-- Only one thread is in the dequeue functions. -/
theorem idle_of_ne (h : Rep s a) {t u : Nat} (ht : s.deq t ≠ .idle) (hut : u ≠ t) :
    s.deq u = .idle := by
  apply Classical.byContradiction
  intro hu
  have h1 := h.dequeueMutex t ht
  rw [h.dequeueMutex u hu] at h1
  exact hut (Option.some.inj h1)

/-- A thread that may lock `queueMutex` finds no open entry. -/
theorem enq_none (h : Rep s a) {t : Nat} (ht : s.q.queueMutex.available t = true) :
    s.enq = none := by
  apply Classical.byContradiction
  intro he
  have := (h.openMutex he).1
  simp only [Mutex.available, h.ordinary.1, Bool.false_and, Bool.or_false,
    Option.isNone_iff_eq_none] at ht
  exact this ht

/-- The program counters after thread `t` moved to `pc`. -/
theorem deq_update (h : Rep s a) {a' : Fifo.State Urc} {t : Nat} {pc : DeqPc}
    (ht : s.deq t ≠ .idle) (hpc : DeqOk a' pc) (u : Nat) :
    DeqOk a' (Function.update s.deq t pc u) := by
  by_cases hut : u = t
  · subst hut; simpa using hpc
  · rw [Function.update_of_ne hut, h.idle_of_ne ht hut]
    trivial

theorem dequeueMutex_update (h : Rep s a) {t : Nat} {pc : DeqPc} (ht : s.deq t ≠ .idle) (u : Nat)
    (hu : Function.update s.deq t pc u ≠ .idle) : s.q.dequeueMutex.owner = some u := by
  by_cases hut : u = t
  · subst hut; exact h.dequeueMutex u ht
  · rw [Function.update_of_ne hut] at hu
    exact h.dequeueMutex u hu

end Rep

/-! ## The enqueuing thread -/

section
variable {s s' : QueueSys} {a : Fifo.State Urc} {e : Option Ev}

theorem Rep.enqueueBegin (h : Rep s a) {line : List UInt8}
    (hf : LineShort s (.enqueueBegin line)) (hs : step s (.enqueueBegin line) = some (s', e)) :
    e = none ∧ Rep s' a := by
  obtain ⟨used, free, hb, hreg, hpos, -⟩ := h.layout
  obtain ⟨he, rfl, rfl⟩ := step_enqueueBegin hs
  obtain ⟨ho, hc⟩ := h.queueMutex he
  simp only [he, openBytes, List.append_nil, List.length_nil, Nat.add_zero] at hb hpos
  cases hsp : s.q.hasSpaceFor line.length with
  | false =>
    rw [enqueueBegin_refused _ hsp ho hc (by simpa [he] using h.layout.choose_spec.choose_spec.2.2.2)]
    obtain ⟨q, enq, deq⟩ := s
    cases he
    exact ⟨rfl, h⟩
  | true =>
    have hlt := hf line rfl hsp
    have hfit := (hasSpaceFor_iff h.bufferPos_le h.small (by omega)).1 hsp
    obtain ⟨q', hq', b1, b2, b3, b4, b5, b6, b7⟩ := enqueueBegin_eq enqThread hsp hb hpos
      (by have := h.len; rw [hb, List.length_append] at this; omega)
    rw [hq', if_pos rfl]
    rw [Mutex.lock_of_free _ ho] at b5
    refine ⟨rfl, ⟨⟨used, _, b1, hreg, ?_, ?_⟩, ?_, ?_, h.fits, ?_, h.lent, h.deq, ?_, ?_, ?_, ?_⟩⟩
    · rw [b2, hpos]; rfl
    · rw [b4, hpos]; rfl
    · rw [b3, h.len, hb, b1]
      simp only [List.length_append, List.length_drop, length_newEntry]
      have := h.len
      rw [hb, List.length_append] at this
      omega
    · rw [b3]; exact h.small
    · rintro _ ⟨⟩
      exact hlt
    · intro t ht; rw [b6]; exact h.dequeueMutex t ht
    · rw [b5, b6]; exact h.ordinary
    · exact fun hn => nomatch hn
    · intro _; rw [b5, hc]; exact ⟨nofun, rfl⟩

/-- The payload area starts where the open entry ends. -/
theorem Rep.payloadPtr_eq (h : Rep s a) {line : List UInt8} (he : s.enq = some line) :
    s.payloadPtr = s.q.bufferPos ∧ s.space ≤ s.q.bufferLen - s.q.bufferPos := by
  obtain ⟨used, free, hb, -, hpos, hp⟩ := h.layout
  have hle := h.bufferPos_le
  have hsmall := h.small
  rw [he] at hb hpos hp
  simp only [openBytes, length_newEntry] at hb hpos
  have hlen : s.q.strLineLen used.length = line.length := by
    rw [strLineLen, hb, newEntry]
    simpa using getU16_u16Bytes used (u16Bytes 0 ++ (line ++ 0 :: free)) line.length used.length
      rfl (h.openFits line he)
  constructor
  · simp only [payloadPtr, uCxAtUrcQueueEnqueueGetPayloadPtr, hp, Option.map_some, Option.getD_some,
      hlen, hpos, sizeofUrcEntry]
    omega
  · rw [space, uCxAtUrcQueueEnqueueGetPayloadPtr, getUnusedBuf, sizeSub_of_le hle]
    exact Nat.mod_le _ _

/-- Bytes stored in the payload area of the open entry are not used yet. -/
theorem Rep.storePayload (h : Rep s a) (he : s.enq ≠ none) (i : Nat) (bytes : List UInt8) :
    Rep { s with q := { s.q with pBuffer := store s.q.pBuffer (s.payloadPtr + i) bytes } } a := by
  obtain ⟨used, free, hb, hreg, hpos, hp⟩ := h.layout
  obtain ⟨line, he⟩ := Option.ne_none_iff_exists'.1 he
  have hst : store s.q.pBuffer (s.payloadPtr + i) bytes =
      used ++ openBytes s.enq ++ store free i bytes := by
    rw [(h.payloadPtr_eq he).1, hpos, hb, ← List.length_append, store_append_right]
  refine ⟨⟨used, _, hst, hreg, hpos, hp⟩, ?_, h.small, h.fits, h.openFits, h.lent, h.deq,
    h.dequeueMutex, h.ordinary, h.queueMutex, h.openMutex⟩
  simpa using h.len

theorem Rep.writePayload (h : Rep s a) {i : Nat} {b : UInt8}
    (hs : step s (.writePayload i b) = some (s', e)) : e = none ∧ Rep s' a := by
  obtain ⟨⟨line, he⟩, -, rfl, rfl⟩ := step_writePayload hs
  exact ⟨rfl, h.storePayload (by simp [he]) i [b]⟩

theorem Rep.enqueueEnd (h : Rep s a) {n : Nat} (hs : step s (.enqueueEnd n) = some (s', e)) :
    ∃ u, e = some (.push u) ∧ Rep s' { a with items := a.items ++ [u] } ∧
      s.q.committed < s'.q.committed ∧ s'.q.entryAt s.q.committed = u := by
  obtain ⟨used, free, hb, hreg, hpos, hp⟩ := h.layout
  have hle := h.bufferPos_le
  have hsmall := h.small
  have hlen := h.len
  obtain ⟨line, he, hn, rfl, rfl⟩ := step_enqueueEnd hs
  obtain ⟨hptr, hspace⟩ := h.payloadPtr_eq he
  rw [he] at hb hpos hp
  simp only [openBytes] at hb hpos
  have hfree : n ≤ free.length := by
    rw [hb] at hlen
    simp only [List.length_append] at hlen
    omega
  obtain ⟨pay, free', rfl, hpay⟩ : ∃ pay free', free = pay ++ free' ∧ pay.length = n :=
    ⟨free.take n, free.drop n, by simp, by simp [hfree]⟩
  have hload : load s.q.pBuffer s.payloadPtr n = pay := by
    rw [hptr, hpos, hb, ← List.append_assoc]
    exact load_mid _ _ _ _ _ (by simp) hpay.symm
  rw [hload]
  have hb' : s.q.pBuffer = used ++ newEntry line ++ pay ++ free' := by
    rw [hb]; simp only [List.append_assoc]
  have hbuf := enqueueEnd_eq enqThread hb' hp
  rw [hpay] at hbuf
  obtain ⟨ho, hc⟩ := h.openMutex (by simp [he])
  have hunl : s.q.queueMutex.unlock enqThread =
      { s.q.queueMutex with owner := none, count := 0 } := by
    simp [Mutex.unlock, h.ordinary.1, hc]
  have hnlt : n < 65536 := Nat.lt_of_le_of_lt hn (Nat.mod_lt _ (by decide))
  have hcom : s.q.committed = used.length := by simp [committed, hp]
  refine ⟨_, rfl, ⟨⟨used ++ Urc.encode ⟨line, pay⟩, free', ?_, region_push hreg, ?_, rfl⟩, ?_, ?_,
    ?_, by rintro _ ⟨⟩, ?_, ?_, ?_, ?_, ?_, ?_⟩, ?_, ?_⟩
  · simpa [openBytes] using hbuf
  · simp only [uCxAtUrcQueueEnqueueEnd, bufferPos_assert, hpos, length_newEntry, openBytes,
      List.length_append, List.length_nil, Urc.length_encode, Urc.length_data, hpay]
    omega
  · simpa [uCxAtUrcQueueEnqueueEnd] using hlen
  · simpa [uCxAtUrcQueueEnqueueEnd] using hsmall
  · intro u hu
    rcases List.mem_append.1 hu with hu | hu
    · exact h.fits u hu
    · obtain rfl := List.mem_singleton.1 hu
      exact ⟨h.openFits line he, by simpa [hpay] using hnlt⟩
  · exact fun hl => ⟨by simp, (h.lent hl).2⟩
  · intro t
    have := h.deq t
    revert this
    cases s.deq t with
    | checked p => cases p <;> simp +contextual [DeqOk]
    | _ => simp [DeqOk]
  · simpa [uCxAtUrcQueueEnqueueEnd] using h.dequeueMutex
  · simpa [uCxAtUrcQueueEnqueueEnd, hunl] using h.ordinary
  · exact fun _ => by simp [uCxAtUrcQueueEnqueueEnd, hunl]
  · exact fun hn => absurd rfl hn
  · rw [hcom]
    simp only [committed, uCxAtUrcQueueEnqueueEnd, Option.getD_none, bufferPos_assert, hpos,
      length_newEntry]
    omega
  · rw [hcom]
    exact entryAt_append hbuf ⟨h.openFits line he, by simpa [hpay] using hnlt⟩

theorem Rep.enqueueAbort (h : Rep s a) (hs : step s .enqueueAbort = some (s', e)) :
    e = none ∧ Rep s' a := by
  obtain ⟨used, free, hb, hreg, hpos, hp⟩ := h.layout
  obtain ⟨⟨line, he⟩, rfl, rfl⟩ := step_enqueueAbort hs
  obtain ⟨ho, hc⟩ := h.openMutex (by simp [he])
  have hunl : s.q.queueMutex.unlock enqThread =
      { s.q.queueMutex with owner := none, count := 0 } := by
    simp [Mutex.unlock, h.ordinary.1, hc]
  rw [he] at hp
  refine ⟨rfl, ⟨⟨used, openBytes s.enq ++ free, ?_, hreg, ?_, rfl⟩, ?_, ?_, h.fits, by rintro _ ⟨⟩, h.lent,
    h.deq, ?_, ?_, ?_, ?_⟩⟩
  · simp [uCxAtUrcQueueEnqueueAbort, hb, openBytes]
  · simp [uCxAtUrcQueueEnqueueAbort, hp, openBytes]
  · simpa [uCxAtUrcQueueEnqueueAbort] using h.len
  · simpa [uCxAtUrcQueueEnqueueAbort] using h.small
  · simpa [uCxAtUrcQueueEnqueueAbort] using h.dequeueMutex
  · simpa [uCxAtUrcQueueEnqueueAbort, hunl] using h.ordinary
  · exact fun _ => by simp [uCxAtUrcQueueEnqueueAbort, hunl]
  · exact fun hn => absurd rfl hn

/-! ## The dequeuing threads -/

/-- A step of a dequeuing thread that leaves the buffer and the abstract queue as they are. -/
theorem Rep.move (h : Rep s a) {t : Nat} {pc : DeqPc} (ht : s.deq t ≠ .idle)
    (hold : ∀ p, s.deq t ≠ .holding p) (hpc : DeqOk a pc) :
    Rep { s with deq := Function.update s.deq t pc } a :=
  { h with
    lent := fun hl => by
      obtain ⟨hne, u, hu⟩ := h.lent hl
      refine ⟨hne, u, ?_⟩
      have hut : u ≠ t := fun he => hold 0 (he ▸ hu)
      simpa [Function.update_of_ne hut] using hu
    deq := h.deq_update ht hpc
    dequeueMutex := h.dequeueMutex_update ht }

/-- It unlocks the dequeue mutex and is done. -/
theorem Rep.leave (h : Rep s a) {t : Nat} (ht : s.deq t ≠ .idle) (hold : ∀ p, s.deq t ≠ .holding p)
    (pDequeueEntry : Option Nat) : Rep { s with
      q := { s.q with pDequeueEntry, dequeueMutex := s.q.dequeueMutex.unlock t }
      deq := Function.update s.deq t .idle } a := by
  have hm : Rep { s with deq := Function.update s.deq t .idle } a := h.move ht hold trivial
  exact {
    layout := h.layout
    len := h.len
    small := h.small
    fits := h.fits
    openFits := h.openFits
    lent := hm.lent
    deq := hm.deq
    dequeueMutex := fun u hu => by
      by_cases hut : u = t
      · subst hut; simp at hu
      · simp [Function.update_of_ne hut, h.idle_of_ne ht hut] at hu
    ordinary := by simpa using h.ordinary
    queueMutex := h.queueMutex
    openMutex := h.openMutex }

theorem Rep.dequeueTryLock (h : Rep s a) {t : Nat} (hs : step s (.dequeueTryLock t) = some (s', e)) :
    e = none ∧ Rep s' a := by
  obtain ⟨-, rfl, ⟨-, rfl⟩ | ⟨hav, rfl⟩⟩ := step_dequeueTryLock hs
  · exact ⟨rfl, h⟩
  · have ho : s.q.dequeueMutex.owner = none := by
      simpa [Mutex.available, h.ordinary.2] using hav
    have hall : ∀ u, s.deq u = .idle := fun u => by
      apply Classical.byContradiction
      intro hu
      rw [h.dequeueMutex u hu] at ho
      cases ho
    have hl : a.lent = false := by
      cases hlent : a.lent with
      | false => rfl
      | true => obtain ⟨-, u, hu⟩ := h.lent hlent; rw [hall u] at hu; cases hu
    refine ⟨rfl, ?_⟩
    simp only [tryLockDequeue, hav, ↓reduceIte]
    refine ⟨?_, by simpa using h.len, by simpa using h.small, h.fits, h.openFits,
      by simp [hl], ?_, ?_, ?_, ?_, ?_⟩
    · simpa using h.layout
    · intro u
      show DeqOk a (Function.update s.deq t .locked u)
      by_cases hut : u = t
      · subst hut; simpa [DeqOk] using hl
      · rw [Function.update_of_ne hut, hall u]; trivial
    · intro u hu
      by_cases hut : u = t
      · subst hut; simp [Mutex.lock_of_free _ ho]
      · change Function.update s.deq t .locked u ≠ .idle at hu
        rw [Function.update_of_ne hut, hall u] at hu; exact absurd rfl hu
    · simpa using h.ordinary
    · simpa using h.queueMutex
    · simpa using h.openMutex

theorem Rep.dequeuePeek (h : Rep s a) {t : Nat} (hs : step s (.dequeuePeek t) = some (s', e)) :
    (e = none ∨ e = some .empty ∧ a.items = []) ∧ Rep s' a := by
  obtain ⟨used, free, hb, hreg, hpos, -⟩ := h.layout
  obtain ⟨hpc, hav, rfl, rfl⟩ := step_dequeuePeek hs
  have he := h.enq_none hav
  have hl : a.lent = false := by have := h.deq t; rwa [hpc] at this
  have hne : s.deq t ≠ .idle := by simp [hpc]
  have hempty : 0 < s.q.bufferPos ↔ a.items ≠ [] := by
    rw [Region, hl] at hreg
    simp only [Bool.false_eq_true, ↓reduceIte] at hreg
    rw [hpos, he, hreg]
    cases a.items with
    | nil => simp [openBytes]
    | cons u us =>
      rw [List.flatMap_cons, List.length_append, Urc.length_encode]
      exact ⟨fun _ => List.cons_ne_nil u us, fun _ => by omega⟩
  by_cases hp : 0 < s.q.bufferPos
  · have hpeek : s.q.peekEntry = some 0 := if_pos hp
    rw [hpeek]
    exact ⟨.inl rfl, h.move hne (by simp [hpc]) ⟨rfl, hl, hempty.1 hp⟩⟩
  · have hpeek : s.q.peekEntry = none := if_neg hp
    rw [hpeek]
    refine ⟨.inr ⟨rfl, ?_⟩, h.move hne (by simp [hpc]) hl⟩
    exact Classical.byContradiction fun hne => hp (hempty.2 hne)

theorem Rep.dequeueHand (h : Rep s a) {t : Nat} (hs : step s (.dequeueHand t) = some (s', e)) :
    (e = none ∧ Rep s' a) ∨
      ∃ u us, e = some (.front u.view) ∧ a.items = u :: us ∧ a.lent = false ∧
        Rep s' { a with lent := true } := by
  obtain ⟨used, free, hb, hreg, hpos, hp⟩ := h.layout
  have hd := h.deq t
  obtain ⟨p, hpc, rfl, rfl⟩ | ⟨hpc, rfl, rfl⟩ := step_dequeueHand hs
  · rw [hpc] at hd
    obtain ⟨rfl, hl, hne⟩ := hd
    have hni : s.deq t ≠ .idle := by simp [hpc]
    obtain ⟨u, us, hu⟩ := List.exists_cons_of_ne_nil hne
    rw [Region, hl] at hreg
    simp only [Bool.false_eq_true, ↓reduceIte, hu, List.flatMap_cons] at hreg
    have hb' : s.q.pBuffer = u.encode ++ (us.flatMap Urc.encode ++ openBytes s.enq ++ free) := by
      simp [hb, hreg]
    have hview : s.q.viewHead = u.view := viewHead_eq hb' (h.fits u (by simp [hu]))
    refine .inr ⟨u, us, by rw [hview], hu, hl, ?_⟩
    exact {
      layout := ⟨used, free, hb, ⟨u, us, u.data, hu, rfl, by simp [hreg, Urc.encode]⟩, hpos, hp⟩
      len := h.len
      small := h.small
      fits := h.fits
      openFits := h.openFits
      lent := fun _ => ⟨hne, t, by simp⟩
      deq := h.deq_update hni ⟨rfl, rfl⟩
      dequeueMutex := h.dequeueMutex_update hni
      ordinary := h.ordinary
      queueMutex := h.queueMutex
      openMutex := h.openMutex }
  · exact .inl ⟨rfl, h.leave (t := t) (by simp [hpc]) (by simp [hpc]) _⟩

theorem Rep.writeData (h : Rep s a) {t i : Nat} {b : UInt8}
    (hs : step s (.writeData t i b) = some (s', e)) : e = none ∧ Rep s' a := by
  obtain ⟨used, free, hb, hreg, hpos, hp⟩ := h.layout
  have hd := h.deq t
  obtain ⟨p, hpc, hi, rfl, rfl⟩ := step_writeData hs
  rw [hpc] at hd
  obtain ⟨rfl, hl⟩ := hd
  rw [Region, if_pos hl] at hreg
  obtain ⟨u, us, d, hu, hdl, rfl⟩ := hreg
  have hfit := h.fits u (by simp [hu])
  have hb0 : s.q.pBuffer = u16Bytes u.line.length ++ u16Bytes u.payload.length ++
      (d ++ (us.flatMap Urc.encode ++ openBytes s.enq ++ free)) := by
    rw [hb]; simp only [List.append_assoc]
  have hsize : s.q.entrySize 0 = d.length := by
    rw [entrySize_append hb0 hfit.1 hfit.2, hdl, Urc.length_data]
  have hst : store s.q.pBuffer (0 + sizeofUrcEntry + i) [b] =
      u16Bytes u.line.length ++ u16Bytes u.payload.length ++ store d i [b] ++
        us.flatMap Urc.encode ++ openBytes s.enq ++ free := by
    have hid : i + 1 ≤ d.length := by rw [hsize] at hi; omega
    have h4 : 0 + sizeofUrcEntry + i =
        (u16Bytes u.line.length ++ u16Bytes u.payload.length).length + i := rfl
    rw [hb0, h4, store_append_right, store_append_left _ _ _ _ hid]
    simp only [List.append_assoc]
  refine ⟨rfl, ⟨⟨_, free, hst, ?_, ?_, ?_⟩, ?_, h.small, h.fits, h.openFits, h.lent, h.deq,
    h.dequeueMutex, h.ordinary, h.queueMutex, h.openMutex⟩⟩
  · rw [Region, if_pos hl]
    exact ⟨u, us, store d i [b], hu, by simp [hdl], rfl⟩
  · simpa using hpos
  · simpa using hp
  · simpa using h.len

theorem Rep.dequeuePop (h : Rep s a) {t : Nat} (hs : step s (.dequeuePop t) = some (s', e)) :
    e = some .pop ∧ a.lent = true ∧ Rep s' ⟨a.items.tail, false⟩ := by
  obtain ⟨used, free, hb, hreg, hpos, hp⟩ := h.layout
  have hd := h.deq t
  have hle := h.bufferPos_le
  have hsmall := h.small
  obtain ⟨p, hpc, hav, rfl, rfl⟩ := step_dequeuePop hs
  rw [hpc] at hd
  obtain ⟨rfl, hl⟩ := hd
  have he := h.enq_none hav
  rw [Region, if_pos hl] at hreg
  obtain ⟨u, us, d, hu, hdl, rfl⟩ := hreg
  have hfit := h.fits u (by simp [hu])
  simp only [he, openBytes, List.append_nil, List.length_nil, Nat.add_zero] at hb hpos
  obtain ⟨free', hb', hlen', hpos'⟩ := popEntry_eq hb hfit.1 hfit.2
    (by rw [hdl, Urc.length_data]) (by rw [hpos]; simp; omega) (by omega)
  have hni : s.deq t ≠ .idle := by simp [hpc]
  refine ⟨rfl, hl, ?_⟩
  exact {
    layout := ⟨us.flatMap Urc.encode, free', by simpa [he, openBytes] using hb',
      by simp [Region, hu], by simp [he, openBytes, hpos'], by simp [he] at hp ⊢; exact hp⟩
    len := by simpa [hlen'] using h.len
    small := by simpa using h.small
    fits := fun v hv => h.fits v (List.mem_of_mem_tail hv)
    openFits := h.openFits
    lent := nofun
    deq := h.deq_update hni rfl
    dequeueMutex := fun u hu => by simpa using h.dequeueMutex_update hni u hu
    ordinary := by simpa using h.ordinary
    queueMutex := by simpa using h.queueMutex
    openMutex := by simpa using h.openMutex }

theorem Rep.dequeueRelease (h : Rep s a) {t : Nat}
    (hs : step s (.dequeueRelease t) = some (s', e)) : e = none ∧ Rep s' a := by
  obtain ⟨hpc, rfl, rfl⟩ := step_dequeueRelease hs
  exact ⟨rfl, h.leave (t := t) (by simp [hpc]) (by simp [hpc]) _⟩

end

end QueueSys
