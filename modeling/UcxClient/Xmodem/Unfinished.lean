import UcxClient.Xmodem.Await

/-!
# Calls that have not returned

A call of the model has no result when it needs one more input than there is. `Resumes`: what a step does
is the same when there are more inputs, and there always are inputs behind which it is over.
`uCxXmodemSend_resumes` has this of a call of `uCxXmodemSend`, with any data callback that keeps to the
buffer. What a call has done before it returns is therefore the beginning of what one that returns does.
-/

universe u v

namespace Xmodem

/-- The inputs of `more` behind those there are. -/
def Port.feed (io more : Port) : Port where
  uart := { io.uart with
    reads := io.uart.reads ++ more.uart.reads
    writes := io.uart.writes ++ more.uart.writes }
  clock := io.clock ++ more.clock

theorem Port.feed_feed (io more more' : Port) : (io.feed more).feed more' = io.feed (more.feed more') := by
  simp [Port.feed]

structure Resumes {β : Type v} (f : Port → Option (β × Port)) : Prop where
  same : ∀ {io io' : Port} {b : β} (more : Port), f io = some (b, io') →
    f (io.feed more) = some (b, io'.feed more)
  ends : ∀ io : Port, ∃ more b io', f (io.feed more) = some (b, io')

section
variable {β γ : Type v} {f h : Port → Option (β × Port)} {g : β → Port → Option (γ × Port)}

theorem Resumes.bind (hf : Resumes f) (hg : ∀ b, Resumes (g b)) :
    Resumes fun io => (f io).bind fun x => g x.1 x.2 := by
  refine ⟨fun more heq => ?_, fun io => ?_⟩
  · obtain ⟨⟨b, io1⟩, hio, heq⟩ := Option.bind_eq_some_iff.1 heq
    rw [hf.same more hio]
    exact (hg b).same more heq
  · obtain ⟨more, b, io1, hio⟩ := hf.ends io
    obtain ⟨more', c, io2, hio1⟩ := (hg b).ends io1
    refine ⟨more.feed more', c, io2, ?_⟩
    rw [← Port.feed_feed, hf.same more' hio]
    exact hio1

theorem resumes_some (b : β) : Resumes fun io => some (b, io) := by
  refine ⟨fun more heq => ?_, fun io => ⟨⟨⟨[], [], []⟩, []⟩, b, _, rfl⟩⟩
  cases heq
  rfl

theorem Resumes.ite (c : Prop) [Decidable c] (hf : Resumes f) (hh : Resumes h) :
    Resumes fun io => if c then f io else h io := by
  by_cases hc : c
  · simpa only [if_pos hc] using hf
  · simpa only [if_neg hc] using hh

end

/-! ## The calls of the port -/

/-- A write of the UART, the clock with it. -/
def Port.write (pData : List UInt8) (io : Port) : Option (Int × Port) :=
  (io.uart.write pData).bind fun x => some (x.1, ⟨x.2, io.clock⟩)

theorem getTimeMs_resumes : Resumes Port.getTimeMs := by
  refine ⟨?_, fun io => ?_⟩
  · rintro ⟨uart, - | ⟨now, clock⟩⟩ io' b more heq
    · cases heq
    · cases heq
      rfl
  · obtain ⟨uart, - | ⟨now, clock⟩⟩ := io
    · exact ⟨⟨⟨[], [], []⟩, [0]⟩, 0, _, rfl⟩
    · exact ⟨⟨⟨[], [], []⟩, []⟩, now, _, rfl⟩

theorem write_resumes (pData : List UInt8) : Resumes (Port.write pData) := by
  refine ⟨?_, fun io => ?_⟩
  · rintro ⟨⟨reads, - | ⟨n, writes⟩, trace⟩, clock⟩ io' b more heq
    · cases heq
    · cases heq
      rfl
  · obtain ⟨⟨reads, - | ⟨n, writes⟩, trace⟩, clock⟩ := io
    · exact ⟨⟨⟨[], [0], []⟩, []⟩, 0, _, rfl⟩
    · exact ⟨⟨⟨[], [], []⟩, []⟩, n, _, rfl⟩

section
variable {α : Type v} {answer : Option UInt8 → Option α} {expired : α} {byte : Option UInt8} {a : α}

theorem awaitByte_over (hbyte : answer byte = some a) (timeoutMs startTime : Int)
    (reads : List (Option UInt8)) (writes : List Int) (trace : List Event) (clock : List Int)
    (hlen : reads.length < clock.length) :
    ∃ b io, awaitByte answer expired timeoutMs startTime ⟨reads ++ [byte], writes, trace⟩ clock =
      some (b, io) := by
  induction clock generalizing reads trace with
  | nil => cases hlen
  | cons now clock ih =>
    simp only [awaitByte]
    split
    · cases reads with
      | nil =>
        simp only [List.nil_append, Uart.read, hbyte]
        exact ⟨_, _, rfl⟩
      | cons r reads =>
        simp only [List.cons_append, Uart.read]
        split
        · exact ⟨_, _, rfl⟩
        · exact ih reads _ (by simpa using hlen)
    · exact ⟨_, _, rfl⟩

/-- A wait is over when the byte comes that it waits for. -/
theorem awaitByte_resumes (hbyte : answer byte = some a) (timeoutMs startTime : Int) :
    Resumes fun io => awaitByte answer expired timeoutMs startTime io.uart io.clock := by
  refine ⟨?_, ?_⟩
  · rintro ⟨uart, clock⟩ io' b more heq
    induction clock generalizing uart with
    | nil => cases heq
    | cons now clock ih =>
      obtain ⟨- | ⟨read, reads⟩, writes, trace⟩ := uart
      · simp only [awaitByte, Uart.read, Port.feed, List.cons_append, List.nil_append] at heq ⊢
        split at heq
        · cases heq
        · next hlt =>
          cases heq
          rw [if_neg hlt]
          rfl
      · simp only [awaitByte, Uart.read, Port.feed, List.cons_append] at heq ⊢
        split at heq
        · next hlt =>
          rw [if_pos hlt]
          split at heq
          · next hread =>
            cases heq
            rfl
          · exact ih _ heq
        · next hlt =>
          cases heq
          rw [if_neg hlt]
          rfl
  · rintro ⟨⟨reads, writes, trace⟩, clock⟩
    have hover : ∃ b io, awaitByte answer expired timeoutMs startTime ⟨reads ++ [byte], writes, trace⟩
        (clock ++ List.replicate (reads.length + 1) 0) = some (b, io) :=
      awaitByte_over hbyte timeoutMs startTime reads writes trace _ (by simp; omega)
    refine ⟨⟨⟨[byte], [], []⟩, List.replicate (reads.length + 1) 0⟩, ?_⟩
    simpa [Port.feed] using hover

end

/-! ## A call of `uCxXmodemSend` -/

theorem retryLoop_write (timeoutMs : Int) (packet : List UInt8) (n : Nat) (io : Port) :
    retryLoop timeoutMs packet (n + 1) io = (Port.write packet io).bind fun x =>
      if x.1 ≠ packet.length then retryLoop timeoutMs packet n x.2
      else x.2.getTimeMs.bind fun y =>
        (responseLoop timeoutMs y.1 y.2.uart y.2.clock).bind fun z =>
          match z.1 with
          | some ret => some (ret, z.2)
          | none => retryLoop timeoutMs packet n z.2 := by
  rw [retryLoop, Port.write]
  cases io.uart.write packet with
  | none => rfl
  | some x => rfl

theorem retryLoop_resumes (timeoutMs : Int) (packet : List UInt8) (n : Nat) :
    Resumes (retryLoop timeoutMs packet n) := by
  induction n with
  | zero => exact resumes_some _
  | succ n ih =>
    have hresp : ∀ startTime, Resumes fun io => responseLoop timeoutMs startTime io.uart io.clock := by
      have hack : responseAnswer (some ack) = some (some 0) := rfl
      simp only [responseLoop_eq]
      exact awaitByte_resumes hack timeoutMs
    have hend : ∀ ret : Option Int, Resumes fun io => match ret with
        | some ret => some (ret, io)
        | none => retryLoop timeoutMs packet n io := by
      rintro (- | ret)
      · exact ih
      · exact resumes_some ret
    have hwait := getTimeMs_resumes.bind fun startTime => (hresp startTime).bind hend
    rw [funext (retryLoop_write timeoutMs packet n)]
    exact (write_resumes packet).bind fun bytesWritten => .ite (bytesWritten ≠ packet.length) ih hwait

theorem xmodemSendEot_resumes (timeoutMs : Int) : Resumes (xmodemSendEot timeoutMs) := by
  have heot : ∀ startTime, Resumes fun io => eotLoop timeoutMs startTime io.uart io.clock := by
    have hack : eotAnswer (some ack) = some 0 := rfl
    simp only [eotLoop_eq]
    exact awaitByte_resumes hack timeoutMs
  have hwrite : xmodemSendEot timeoutMs = fun io => (Port.write [eot] io).bind fun x =>
      if x.1 ≠ 1 then some (-1, x.2)
      else x.2.getTimeMs.bind fun y => eotLoop timeoutMs y.1 y.2.uart y.2.clock := by
    funext io
    rw [xmodemSendEot, Port.write]
    cases io.uart.write [eot] with
    | none => rfl
    | some x => rfl
  rw [hwrite]
  exact (write_resumes [eot]).bind fun bytesWritten =>
    .ite (bytesWritten ≠ 1) (resumes_some (-1)) (getTimeMs_resumes.bind heot)

theorem xmodemWaitForStart_resumes (timeoutMs : Int) : Resumes (xmodemWaitForStart timeoutMs) := by
  have hstart : ∀ startTime, Resumes fun io => startLoop timeoutMs startTime io.uart io.clock := by
    have hcchr : startAnswer (some cchr) = some 0 := rfl
    simp only [startLoop_eq]
    exact awaitByte_resumes hcchr timeoutMs
  exact getTimeMs_resumes.bind hstart

theorem delayLoop_append {delayEnd : Int} {clock rest : List Int} (more : List Int)
    (h : delayLoop delayEnd clock = some rest) : delayLoop delayEnd (clock ++ more) = some (rest ++ more) := by
  induction clock with
  | nil => cases h
  | cons now clock ih =>
    simp only [delayLoop, List.cons_append] at h ⊢
    split at h
    · next hlt =>
      rw [if_pos hlt]
      exact ih h
    · next hlt =>
      cases h
      rw [if_neg hlt]

/-- The loop is over when the clock is past its end. -/
theorem delayLoop_over (delayEnd : Int) (clock : List Int) :
    ∃ rest, delayLoop delayEnd (clock ++ [delayEnd]) = some rest := by
  induction clock with
  | nil => exact ⟨[], if_neg (Int.lt_irrefl _)⟩
  | cons now clock ih =>
    simp only [delayLoop, List.cons_append]
    split
    · exact ih
    · exact ⟨_, rfl⟩

/-- `delayLoop` as a step without a result. -/
def delay (delayEnd : Int) (io : Port) : Option (Unit × Port) :=
  (delayLoop delayEnd io.clock).map fun clock => ((), { io with clock })

theorem delay_resumes (delayEnd : Int) : Resumes (delay delayEnd) := by
  refine ⟨fun more heq => ?_, fun io => ?_⟩
  · obtain ⟨clock, hclock, heq⟩ := Option.map_eq_some_iff.1 heq
    cases heq
    exact Option.map_eq_some_iff.2 ⟨_, delayLoop_append more.clock hclock, rfl⟩
  · obtain ⟨rest, hrest⟩ := delayLoop_over delayEnd io.clock
    exact ⟨⟨⟨[], [], []⟩, [delayEnd]⟩, (), _, Option.map_eq_some_iff.2 ⟨rest, hrest, rfl⟩⟩

theorem pause_resumes : Resumes fun io => (pause io).map ((), ·) := by
  have hpause : (fun io => (pause io).map ((), ·)) = fun io : Port =>
      io.getTimeMs.bind fun x => delay (toInt32 (x.1 + 10)) x.2 := by
    funext io
    unfold pause delay
    rcases io.getTimeMs with - | ⟨now, io⟩
    · rfl
    · simp only [Option.bind_eq_bind, Option.bind_some]
      cases delayLoop (toInt32 (now + 10)) io.clock <;> rfl
  rw [hpause]
  exact getTimeMs_resumes.bind fun now => delay_resumes (toInt32 (now + 10))

variable {υ : Type u}

theorem report_resumes (job : Job υ) (offset : Nat) :
    Resumes fun io => some ((), job.report offset io) := by
  refine ⟨fun more heq => ?_, fun io => ⟨⟨⟨[], [], []⟩, []⟩, (), _, rfl⟩⟩
  cases heq
  unfold Job.report
  split <;> rfl

theorem pauseBefore_resumes (job : Job υ) (offset : Nat) :
    Resumes fun io => (job.pauseBefore offset io).map ((), ·) := by
  unfold Job.pauseBefore
  by_cases hc : job.cfg.blockSize = blockSize1K ∧ offset < job.dataLen
  · simp only [if_pos hc]
    exact pause_resumes
  · simp only [if_neg hc]
    exact resumes_some ()

/-- The data callback keeps to the buffer of `uCxXmodemSend`. -/
def Job.KeepsBuffer (job : Job υ) : Prop :=
  ∀ user blockBuffer offset, offset < job.dataLen → blockBuffer.length = blockSize1K →
    (job.request user blockBuffer offset).blockBuffer.length = blockSize1K ∧
      (job.request user blockBuffer offset).bytesRead ≤ blockSize1K

section
variable {job : Job υ} (hkeeps : job.KeepsBuffer)
include hkeeps

theorem sendLoop_resumes (n : Nat) (blockNum : UInt8) (offset : Nat) (blockBuffer : List UInt8) (user : υ)
    (hn : job.dataLen - offset < n) (hbuf : blockBuffer.length = blockSize1K) :
    Resumes fun io => sendLoop job n { blockNum, offset, blockBuffer, user, io } := by
  induction n generalizing blockNum offset blockBuffer user with
  | zero => exact absurd hn (Nat.not_lt_zero _)
  | succ n ih =>
    simp only [sendLoop]
    by_cases hlt : offset < job.dataLen
    · simp only [if_pos hlt]
      obtain ⟨hbuf', hle⟩ := hkeeps user blockBuffer offset hlt hbuf
      generalize job.request user blockBuffer offset = a at hbuf' hle
      have hfit : ¬a.blockBuffer.length < a.bytesRead := by omega
      simp only [if_neg hfit]
      by_cases hneg : a.bytesRead < 0
      · simp only [if_pos hneg]
        exact resumes_some _
      · by_cases hzero : a.bytesRead = 0 ∧ 0 < job.dataLen - offset
        · simp only [if_neg hneg, if_pos hzero]
          exact resumes_some _
        · simp only [if_neg hneg, if_neg hzero]
          have hblock := retryLoop_resumes job.cfg.timeoutMs (blockPacket blockNum
            (a.blockBuffer.take a.bytesRead.toNat) job.cfg.blockSize) maxRetries
          have hnext := ih (blockNum + 1) (offset + a.bytesRead.toNat) a.blockBuffer a.user (by omega) hbuf'
          have hbehind := (report_resumes job (offset + a.bytesRead.toNat)).bind fun _ =>
            (pauseBefore_resumes job (offset + a.bytesRead.toNat)).bind fun _ => hnext
          have hall := hblock.bind fun result => .ite (result ≠ 0) (resumes_some result) hbehind
          simp only [Option.bind_some, Option.bind_map, Function.comp_def] at hall
          exact hall
    · simp only [if_neg hlt]
      exact xmodemSendEot_resumes _

/-- **A call can always go on to its end**, and what it has done stays. -/
theorem uCxXmodemSend_resumes (user : υ) {blockBuffer : List UInt8}
    (hbuf : blockBuffer.length = blockSize1K) : Resumes (uCxXmodemSend job user blockBuffer) := by
  unfold uCxXmodemSend
  refine .ite _ (resumes_some (-1)) ?_
  have hsend := sendLoop_resumes hkeeps (job.dataLen + 1) 1 0 blockBuffer user (by omega) hbuf
  exact (xmodemWaitForStart_resumes _).bind fun result => .ite (result ≠ 0) (resumes_some result) hsend

end

end Xmodem
