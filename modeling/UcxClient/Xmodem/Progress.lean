import UcxClient.Xmodem.Reassembly
import UcxClient.Xmodem.Unfinished

/-!
# Progress reports

`notes` reads off the events which blocks were acknowledged and what was reported, in their order.
`ReportsProgress`: behind each acknowledged block there is one report, of the total and with the pointer that the
caller passed, and the counts grow and reach the total with the last block. A call of `uCxXmodemSend` does
that with any data callback that returns between one byte and as many as it is asked for (`Job.Conforms`,
`Call.reports`). `uCxXmodemSendFile` passes the address of its own context on, so that the progress
callback gets that one (`Sending.reports_iff`).
-/

open ByteMem

universe u

namespace Xmodem

/-! ## Blocks and reports -/

inductive Note where
  | acked (packet : List UInt8)
  | reported (totalBytes bytesTransferred pUserData : Nat)
  deriving DecidableEq

/-- The acknowledged packets and the reports, when `last` is written and not acknowledged yet. -/
def notes : Option (List UInt8) → List Event → List Note
  | _, [] => []
  | last, .wrote pData n :: es => notes (if n = pData.length then some pData else last) es
  | last, .read byte :: es =>
    if byte = some ack then last.toList.map .acked ++ notes none es else notes last es
  | last, .progress totalBytes bytesTransferred pUserData :: es =>
    .reported totalBytes bytesTransferred pUserData :: notes last es

/-- The notes but for EOT. -/
def blockNotes (es : List Event) : List Note := (notes none es).filter (· ≠ .acked [eot])

/-- One report behind each block of a transfer of that many blocks. -/
def ReportsProgress (blocks total pUserData : Nat) (es : List Event) : Prop :=
  ∃ sent : List (List UInt8 × Nat),
    blockNotes es = sent.flatMap (fun x => [.acked x.1, .reported total x.2 pUserData]) ∧
      (sent.map Prod.snd).Pairwise (· < ·) ∧ (∀ x ∈ sent, x.2 ≤ total) ∧
      ∀ k x, sent[k]? = some x → (x.2 = total ↔ k + 1 = blocks)

variable {packet : List UInt8} {n : Nat} {es : List Event} {r : Int}

theorem notes_tries (h : ∀ e ∈ es, e.Try packet) (last : Option (List UInt8)) (es' : List Event) :
    notes last (es ++ es') =
      notes (if .wrote packet packet.length ∈ es then some packet else last) es' := by
  induction es generalizing last with
  | nil => rfl
  | cons e es ih =>
    have he := h e List.mem_cons_self
    have hrest := fun e he => h e (List.mem_cons_of_mem _ he)
    cases e with
    | wrote pData n =>
      obtain rfl : pData = packet := he
      rw [List.cons_append, notes, ih hrest]
      by_cases hn : n = pData.length
      · simp [hn]
      · have hne : ¬(pData.length : Int) = n := fun h => hn h.symm
        simp [hn, hne]
    | read byte =>
      rw [List.cons_append, notes, if_neg he.1, ih hrest]
      simp
    | progress => exact he.elim

theorem notes_reads {bytes : List (Option UInt8)} (last : Option (List UInt8)) (es : List Event)
    (h : some ack ∉ bytes ∨ last = none) : notes last (bytes.map .read ++ es) = notes last es := by
  induction bytes with
  | nil => rfl
  | cons byte bytes ih =>
    rw [List.map_cons, List.cons_append, notes]
    rcases h with h | rfl
    · rw [List.mem_cons, not_or] at h
      rw [if_neg (Ne.symm h.1), ih (.inl h.2)]
    · simp [ih]

theorem Tried.notes_zero (h : Tried packet n es 0) (last : Option (List UInt8)) (es' : List Event) :
    notes last (es ++ es') = .acked packet :: notes none es' := by
  cases h with
  | acked htry hw =>
    rw [List.append_assoc, notes_tries htry.tries, if_pos hw]
    simp [notes]

theorem Tried.notes_ne (h : Tried packet n es r) (hr : r ≠ 0) (last : Option (List UInt8)) :
    notes last es = [] := by
  cases h with
  | acked => exact absurd rfl hr
  | cancelled htry =>
    rw [notes_tries htry.tries]
    rfl
  | failed htry =>
    have := notes_tries htry.tries last []
    rwa [List.append_nil] at this

theorem Ended.blockNotes (h : Ended es r) : blockNotes es = [] := by
  unfold Xmodem.blockNotes
  cases h with
  | unwritten hn => simp [notes]
  | expired hack =>
    have := notes_reads (some [eot]) [] (.inl hack)
    rw [List.append_nil] at this
    simp [notes, this]
  | acked hack => simp [notes, notes_reads (some [eot]) _ (.inl hack)]

/-! ## The data callback -/

variable {υ : Type u}

/-- The data callback returns between one and the number of bytes it is asked for, and leaves the buffer as
long as it is. -/
def Job.Conforms (job : Job υ) : Prop :=
  ∀ user blockBuffer offset maxLen, blockBuffer.length = blockSize1K → 0 < maxLen →
    maxLen ≤ job.cfg.blockSize → offset + maxLen ≤ job.dataLen →
    let a := job.dataCallback job.pUserData user blockBuffer offset maxLen
    0 < a.bytesRead ∧ a.bytesRead ≤ maxLen ∧ a.blockBuffer.length = blockSize1K

section
variable {job : Job υ} (hconf : job.Conforms)
include hconf

theorem Job.Conforms.request {offset : Nat} {blockBuffer : List UInt8} (hlt : offset < job.dataLen)
    (hbuf : blockBuffer.length = blockSize1K) (user : υ) :
    ∃ k : Nat, 0 < k ∧ offset + k ≤ job.dataLen ∧ k ≤ blockSize1K ∧
      (job.request user blockBuffer offset).bytesRead = k ∧
      (job.request user blockBuffer offset).blockBuffer.length = blockSize1K := by
  have hreq := job.requestLen_eq offset
  have hpos := job.cfg.blockSize_pos
  have hle : job.cfg.blockSize ≤ blockSize1K := by
    unfold Config.blockSize
    split <;> decide
  obtain ⟨h0, hmax, hlen⟩ := hconf user blockBuffer offset (job.requestLen offset) hbuf (by omega)
    (by omega) (by omega)
  exact ⟨(job.request user blockBuffer offset).bytesRead.toNat, by unfold Job.request; omega,
    by unfold Job.request; omega, by unfold Job.request; omega, by unfold Job.request; omega, hlen⟩

theorem Job.Conforms.keepsBuffer : job.KeepsBuffer := by
  intro user blockBuffer offset hlt hbuf
  obtain ⟨k, -, -, hk, hret, hlen⟩ := hconf.request hlt hbuf user
  exact ⟨hlen, by omega⟩

/-- The blocks are not empty, and together they are as long as the data. -/
theorem Job.Conforms.chunks (n : Nat) (user : υ) {blockBuffer : List UInt8} {offset : Nat}
    (hn : job.dataLen < n + offset) (hbuf : blockBuffer.length = blockSize1K)
    (hoffset : offset ≤ job.dataLen) :
    [] ∉ job.chunks n user blockBuffer offset ∧
      offset + ((job.chunks n user blockBuffer offset).map List.length).sum = job.dataLen := by
  induction n generalizing user blockBuffer offset with
  | zero => exact ⟨List.not_mem_nil, by simp [Job.chunks]; omega⟩
  | succ n ih =>
    simp only [Job.chunks]
    split
    · next hlt =>
      obtain ⟨k, hk, hle, hkb, hret, hlen⟩ := hconf.request hlt hbuf user
      rw [hret, Int.toNat_natCast]
      have hne : ((job.request user blockBuffer offset).blockBuffer.take k).length = k := by
        rw [List.length_take]
        omega
      have hn' : job.dataLen < n + (offset + k) := by omega
      obtain ⟨h1, h2⟩ := ih (job.request user blockBuffer offset).user hn' hlen hle
      refine ⟨?_, ?_⟩
      · rw [List.mem_cons, not_or]
        refine ⟨fun h => ?_, h1⟩
        rw [← h, List.length_nil] at hne
        omega
      · rw [List.map_cons, List.sum_cons, hne, ← Nat.add_assoc, h2]
    · exact ⟨List.not_mem_nil, by simp; omega⟩

end

/-! ## The reports of a call -/

section
variable {job : Job υ} {cs : List (List UInt8)} (hcb : job.progressCallback = true)
include hcb

/-- **The reports of a transfer**, from an offset on. -/
theorem Transfer.reports {blockNum : UInt8} {offset : Nat} (h : Transfer job blockNum offset cs es r)
    (hne : [] ∉ cs) (hsum : offset + (cs.map List.length).sum = job.dataLen) :
    ∃ sent : List (List UInt8 × Nat),
      blockNotes es = sent.flatMap (fun x => [.acked x.1, .reported job.dataLen x.2 job.pUserData]) ∧
        (sent.map Prod.snd).Pairwise (· < ·) ∧ (∀ x ∈ sent, offset < x.2 ∧ x.2 ≤ job.dataLen) ∧
        ∀ k x, sent[k]? = some x → (x.2 = job.dataLen ↔ k + 1 = cs.length) := by
  induction h with
  | refused => exact ⟨[], rfl, .nil, nofun, nofun⟩
  | stopped htried hr =>
    exact ⟨[], by rw [blockNotes, htried.notes_ne hr]; rfl, .nil, nofun, nofun⟩
  | ended hend => exact ⟨[], hend.blockNotes, .nil, nofun, nofun⟩
  | @next blockNum offset c cs es es' r htried _ ih =>
    rw [List.mem_cons, not_or] at hne
    rw [List.map_cons, List.sum_cons] at hsum
    have hc : 0 < c.length := List.length_pos_iff.2 (Ne.symm hne.1)
    obtain ⟨sent, hnotes, hinc, hbound, hlast⟩ := ih hne.2 (by omega)
    refine ⟨(blockPacket blockNum c job.cfg.blockSize, offset + c.length) :: sent, ?_, ?_, ?_, ?_⟩
    · unfold blockNotes at hnotes ⊢
      simp only [Job.reported, hcb, if_true, List.append_assoc, List.singleton_append,
        htried.notes_zero, notes]
      rw [List.filter_cons_of_pos (by simp [blockPacket_ne_eot]), List.filter_cons_of_pos (by simp),
        hnotes]
      rfl
    · rw [List.map_cons, List.pairwise_cons]
      refine ⟨fun b hb => ?_, hinc⟩
      obtain ⟨x, hx, rfl⟩ := List.mem_map.1 hb
      exact (hbound x hx).1
    · refine List.forall_mem_cons.2 ⟨⟨by simp only; omega, by simp only; omega⟩, fun x hx => ?_⟩
      have := hbound x hx
      omega
    · rintro (- | k) x hx
      · cases hx
        -- it is the last block if there are no bytes behind it
        have hrest : (cs.map List.length).sum = 0 ↔ cs = [] := by
          cases cs with
          | nil => simp
          | cons c' cs =>
            have := List.length_pos_iff.2 (Ne.symm (List.ne_of_not_mem_cons hne.2))
            simp only [List.map_cons, List.sum_cons, reduceCtorEq, iff_false]
            omega
        simp only [List.length_cons, Nat.zero_add]
        rw [← List.length_eq_zero_iff] at hrest
        omega
      · rw [List.getElem?_cons_succ] at hx
        rw [hlast k x hx, List.length_cons]
        omega

theorem Call.reports (h : Call job cs es r) (hne : [] ∉ cs)
    (hsum : (cs.map List.length).sum = job.dataLen) :
    ReportsProgress cs.length job.dataLen job.pUserData es := by
  have hread : ∀ (bytes : List (Option UInt8)) (es : List Event),
      blockNotes (bytes.map .read ++ es) = blockNotes es := fun bytes es => by
    rw [blockNotes, notes_reads none es (.inr rfl), blockNotes]
  have hquiet : ∀ bytes : List (Option UInt8),
      ReportsProgress cs.length job.dataLen job.pUserData (bytes.map .read) := fun bytes => by
    have := hread bytes []
    rw [List.append_nil] at this
    exact ⟨[], this, .nil, nofun, nofun⟩
  cases h with
  | idle => exact hquiet []
  | expired => exact hquiet _
  | @declined ignored byte =>
    have := hquiet (ignored ++ [byte])
    rwa [List.map_append] at this
  | @started ignored es r _ h =>
    obtain ⟨sent, hnotes, hinc, hbound, hlast⟩ := h.reports hcb hne (by omega)
    have hstart := hread (ignored ++ [some cchr]) es
    rw [List.map_append] at hstart
    exact ⟨sent, hstart.trans hnotes, hinc, fun x hx => (hbound x hx).2, hlast⟩

end

/-! ## A call with a report -/

theorem notes_reported {totalBytes bytesTransferred pUserData : Nat} {es : List Event}
    (h : .progress totalBytes bytesTransferred pUserData ∈ es) (last : Option (List UInt8)) :
    .reported totalBytes bytesTransferred pUserData ∈ notes last es := by
  induction es generalizing last with
  | nil => cases h
  | cons e es ih =>
    rcases List.mem_cons.1 h with rfl | hmem
    · exact List.mem_cons_self
    · have hes := ih hmem
      cases e with
      | wrote => exact hes _
      | read byte =>
        rw [notes]
        split
        · exact List.mem_append_right _ (hes _)
        · exact hes _
      | progress => exact List.mem_cons_of_mem _ (hes _)

theorem ReportsProgress.pUserData_eq {blocks total pUserData totalBytes bytesTransferred ptr : Nat}
    {es : List Event} (h : ReportsProgress blocks total pUserData es)
    (hmem : .progress totalBytes bytesTransferred ptr ∈ es) : ptr = pUserData := by
  obtain ⟨sent, hnotes, -⟩ := h
  have hin : .reported totalBytes bytesTransferred ptr ∈ blockNotes es :=
    List.mem_filter.2 ⟨notes_reported hmem none, by simp⟩
  rw [hnotes] at hin
  obtain ⟨x, -, hx⟩ := List.mem_flatMap.1 hin
  simp only [List.mem_cons, reduceCtorEq, Note.reported.injEq, List.not_mem_nil, or_false,
    false_or] at hx
  exact hx.2.2

/-- What is behind the first block of a transfer. -/
def behindFirst (job : Job υ) (a : Answer υ) (io : Port) : Option (Int × Port) :=
  (job.pauseBefore a.bytesRead.toNat io).bind fun io =>
    sendLoop job job.dataLen ⟨2, a.bytesRead.toNat, a.blockBuffer, a.user, io⟩

/-- A receiver that acknowledges one block. -/
def oneAck (packet : List UInt8) : Port :=
  ⟨⟨[some cchr, some ack], [packet.length], []⟩, [0, 0, 0, -2 ^ 31]⟩

/-- What is left of it then. -/
def oneAcked (packet : List UInt8) : Port :=
  ⟨⟨[], [], [.read (some cchr), .wrote packet packet.length, .read (some ack)]⟩, []⟩

theorem oneAck_start (packet : List UInt8) : xmodemWaitForStart startTimeoutMs (oneAck packet) =
    some (0, ⟨⟨[some ack], [packet.length], [.read (some cchr)]⟩, [0, -2 ^ 31]⟩) := rfl

theorem oneAck_block {timeoutMs : Int} (htime : -2 ^ 31 < timeoutMs) (packet : List UInt8) :
    retryLoop timeoutMs packet maxRetries
      ⟨⟨[some ack], [packet.length], [.read (some cchr)]⟩, [0, -2 ^ 31]⟩ =
      some (0, oneAcked packet) := by
  have hmin : toInt32 (-2 ^ 31) = -2 ^ 31 := by decide
  have hresp : ∀ trace, responseLoop timeoutMs 0 ⟨[some ack], [], trace⟩ [-2 ^ 31] =
      some (some 0, ⟨⟨[], [], trace ++ [.read (some ack)]⟩, []⟩) := fun trace => by
    rw [responseLoop, Int.sub_zero, hmin, if_pos htime]
    rfl
  rw [maxRetries, retryLoop]
  simp only [Uart.write, Port.getTimeMs, Option.bind_eq_bind, Option.bind_some, ne_eq,
    not_true_eq_false, if_false, hresp]
  rfl

section
variable {job : Job υ} (hconf : job.Conforms) (hopened : job.cfg.opened = true) (hlen : 0 < job.dataLen)
include hconf hlen

theorem behindFirst_resumes (user : υ) {blockBuffer : List UInt8}
    (hbuf : blockBuffer.length = blockSize1K) :
    Resumes (behindFirst job (job.request user blockBuffer 0)) := by
  obtain ⟨k, hk, hle, -, hret, hbuf'⟩ := hconf.request hlen hbuf user
  have hsend := sendLoop_resumes hconf.keepsBuffer job.dataLen 2 k
    (job.request user blockBuffer 0).blockBuffer (job.request user blockBuffer 0).user (by omega) hbuf'
  have hall := (pauseBefore_resumes job k).bind fun _ => hsend
  simp only [Option.bind_map, Function.comp_def] at hall
  unfold behindFirst
  rw [hret]
  exact hall

include hopened

/-- The first block can be acknowledged, and the call goes on behind it. -/
theorem exists_acked (htime : -2 ^ 31 < job.cfg.timeoutMs) (user : υ) {blockBuffer : List UInt8}
    (hbuf : blockBuffer.length = blockSize1K) :
    ∃ packet more sent r io', uCxXmodemSend job user blockBuffer ((oneAck packet).feed more) = some (r, io') ∧
      ∃ es, io'.uart.trace = (job.report sent (oneAcked packet)).uart.trace ++ es := by
  obtain ⟨k, hk, hle, hkb, hret, hbuf'⟩ := hconf.request hlen hbuf user
  generalize hpacket : blockPacket 1 ((job.request user blockBuffer 0).blockBuffer.take k)
    job.cfg.blockSize = packet
  obtain ⟨more, r, io', hrest⟩ := (behindFirst_resumes hconf hlen user hbuf).ends
    (job.report k (oneAcked packet))
  refine ⟨packet, more, k, r, io', ?_, ?_⟩
  · have hstart := (xmodemWaitForStart_resumes _).same more (oneAck_start packet)
    have hblock := (retryLoop_resumes _ _ _).same more (oneAck_block htime packet)
    have hreport : job.report k ((oneAcked packet).feed more) =
        (job.report k (oneAcked packet)).feed more := by
      have := @Resumes.same _ _ (report_resumes job k) (oneAcked packet) _ _ more rfl
      exact (Prod.mk.inj (Option.some.inj this)).2
    have hno : ¬(!job.cfg.opened ∨ job.dataLen = 0) := by simp [hopened]; omega
    rw [uCxXmodemSend, if_neg hno, hstart]
    simp only [Option.bind_eq_bind, Option.bind_some, ne_eq, not_true_eq_false, if_false]
    rw [sendLoop, if_pos hlen]
    have hneg : ¬(k : Int) < 0 := by omega
    have hzero : ¬((k : Int) = 0 ∧ 0 < job.dataLen - 0) := by omega
    have hfit : ¬((job.request user blockBuffer 0).blockBuffer.length : Int) < k := by omega
    simp only [hret, if_neg hneg, if_neg hzero, if_neg hfit, Int.toNat_natCast, xmodemSendBlock, hpacket,
      hblock, Option.bind_eq_bind, Option.bind_some, ne_eq, not_true_eq_false, if_false, Nat.zero_add,
      hreport]
    rw [behindFirst, hret, Int.toNat_natCast] at hrest
    exact hrest
  · obtain ⟨io1, hpause, hloop⟩ := Option.bind_eq_some_iff.1 hrest
    obtain ⟨es, htr, -⟩ := sendLoop_transfer hloop
    exact ⟨es, by rw [htr, job.pauseBefore_uart hpause]; rfl⟩

end

/-! ## Calls without a report -/

theorem not_toInt32_lt {timeoutMs : Int} (h : timeoutMs ≤ -2 ^ 31) (x : Int) : ¬toInt32 x < timeoutMs := by
  rw [toInt32_eq]
  omega

theorem retryLoop_expired {timeoutMs : Int} (htime : timeoutMs ≤ -2 ^ 31) {packet : List UInt8} {n : Nat}
    {io io' : Port} {r : Int} (h : retryLoop timeoutMs packet n io = some (r, io')) : r = -1 := by
  induction n generalizing io with
  | zero =>
    cases h
    rfl
  | succ n ih =>
    obtain ⟨⟨bytesWritten, uart⟩, -, h⟩ := Option.bind_eq_some_iff.1 h
    dsimp only at h
    split at h
    · exact ih h
    · obtain ⟨⟨startTime, io1⟩, -, h⟩ := Option.bind_eq_some_iff.1 h
      obtain ⟨⟨ret, io2⟩, hresp, h⟩ := Option.bind_eq_some_iff.1 h
      dsimp only at hresp h
      have hret : ret = none := by
        cases hclock : io1.clock with
        | nil =>
          rw [hclock] at hresp
          cases hresp
        | cons now clock =>
          rw [hclock, responseLoop, if_neg (not_toInt32_lt htime _)] at hresp
          cases hresp
          rfl
      subst hret
      exact ih h

theorem sendLoop_silent {job : Job υ} (htime : job.cfg.timeoutMs ≤ -2 ^ 31) {n : Nat} {x : Progress υ} {io : Port}
    {r : Int} (hlt : x.offset < job.dataLen) (h : sendLoop job n x = some (r, io)) :
    ∃ es, io.uart.trace = x.io.uart.trace ++ es ∧ notes none es = [] := by
  cases n with
  | zero => cases h
  | succ n =>
    rw [sendLoop, if_pos hlt] at h
    dsimp only at h
    repeat' split at h
    · cases h
      exact ⟨[], by simp, rfl⟩
    · cases h
      exact ⟨[], by simp, rfl⟩
    · cases h
    · obtain ⟨⟨result, io1⟩, hblock, h⟩ := Option.bind_eq_some_iff.1 h
      obtain rfl : result = -1 := retryLoop_expired htime hblock
      obtain ⟨es, htr, htried⟩ := retryLoop_tried hblock
      cases h
      exact ⟨es, htr, htried.notes_ne (by decide) none⟩

theorem uCxXmodemSend_silent {job : Job υ}
    (hquiet : job.cfg.opened = false ∨ job.cfg.timeoutMs ≤ -2 ^ 31) {user : υ} {blockBuffer : List UInt8}
    {io io' : Port} {r : Int} (h : uCxXmodemSend job user blockBuffer io = some (r, io')) :
    ∃ es, io'.uart.trace = io.uart.trace ++ es ∧ notes none es = [] := by
  unfold uCxXmodemSend at h
  split at h
  · cases h
    exact ⟨[], by simp, rfl⟩
  · next hno =>
    obtain ⟨⟨result, io1⟩, hstart, h⟩ := Option.bind_eq_some_iff.1 h
    obtain ⟨⟨startTime, io2⟩, htm, hloop⟩ := Option.bind_eq_some_iff.1 hstart
    dsimp only at hloop h
    rw [startLoop_eq, Port.getTimeMs_uart htm] at hloop
    have hreads : ∃ bytes : List (Option UInt8), io1.uart.trace = io.uart.trace ++ bytes.map .read := by
      obtain ⟨ignored, -, ⟨-, htr⟩ | ⟨byte, -, htr⟩⟩ := awaitByte_trace hloop
      · exact ⟨ignored, htr⟩
      · exact ⟨ignored ++ [byte], by rw [htr]; simp⟩
    obtain ⟨bytes, hbytes⟩ := hreads
    have hnone : ∀ es, notes none (bytes.map .read ++ es) = notes none es :=
      fun es => notes_reads none es (.inr rfl)
    split at h
    · cases h
      exact ⟨_, hbytes, by simpa [notes] using hnone []⟩
    · rw [not_or, Bool.not_eq_true, Bool.not_eq_false'] at hno
      have htime : job.cfg.timeoutMs ≤ -2 ^ 31 := hquiet.resolve_left (by simp [hno.1])
      obtain ⟨es, htr, hes⟩ := sendLoop_silent htime (Nat.pos_of_ne_zero hno.2) h
      exact ⟨_, by rw [htr, hbytes, List.append_assoc], (hnone es).trans hes⟩

/-! ## The two functions -/

/-- A call of `uCxXmodemSend` or of `uCxXmodemSendFile`. -/
inductive Sending (υ : Type u) where
  | send (job : Job υ)
  | sendFile (x : FileJob υ)

/-- What the call comes to, if it does not end before it begins. -/
def Sending.job : Sending υ → Option (Job υ)
  | .send job => some job
  | .sendFile x => x.job

def Sending.run : Sending υ → υ → List UInt8 → Port → Option (Int × Port)
  | .send job => uCxXmodemSend job
  | .sendFile x => uCxXmodemSendFile x

/-- The pointer that the caller passes. -/
def Sending.pUserData : Sending υ → Nat
  | .send job => job.pUserData
  | .sendFile x => x.pUserData

/-- In every run of the call the progress callback, if there is one, is called for each acknowledged block. -/
def Sending.Reports (x : Sending υ) (user : υ) (blockBuffer : List UInt8) : Prop :=
  ∀ job, x.job = some job → job.progressCallback = true →
    ∀ io r io' es, x.run user blockBuffer io = some (r, io') → io'.uart.trace = io.uart.trace ++ es →
      ReportsProgress (job.chunks (job.dataLen + 1) user blockBuffer 0).length job.dataLen x.pUserData es

/-- The progress callback of a call of `uCxXmodemSendFile` may be called: it is there, the UART is open, the
file is there and not empty, and there is a clock reading with which a wait does not end at once. -/
def FileJob.MayReport (x : FileJob υ) : Prop :=
  x.progressCallback = true ∧ x.cfg.opened = true ∧ x.job ≠ none ∧ -2 ^ 31 < x.cfg.timeoutMs

theorem Sending.run_job {x : Sending υ} {job : Job υ} (h : x.job = some job) :
    x.run = uCxXmodemSend job := by
  cases x with
  | send =>
    cases h
    rfl
  | sendFile x =>
    have h : x.job = some job := h
    funext user blockBuffer io
    simp [Sending.run, uCxXmodemSendFile, h]

theorem FileJob.job_eq {x : FileJob υ} {job : Job υ} (h : x.job = some job) :
    job.cfg = x.cfg ∧ job.progressCallback = x.progressCallback ∧ job.pUserData = x.pFileCtx ∧
      0 < job.dataLen := by
  unfold FileJob.job at h
  split at h
  · cases h
  · split at h
    · cases h
    · cases h
      exact ⟨rfl, rfl, rfl, by simp only; omega⟩

section
variable {job : Job υ} (hconf : job.Conforms)
include hconf

/-- **The reports of a call of `uCxXmodemSend`**: those that the header promises. -/
theorem uCxXmodemSend_reports (hcb : job.progressCallback = true) {user : υ} {blockBuffer : List UInt8}
    (hbuf : blockBuffer.length = blockSize1K) {io io' : Port} {r : Int}
    (h : uCxXmodemSend job user blockBuffer io = some (r, io'))
    {es : List Event} (htr : io'.uart.trace = io.uart.trace ++ es) :
    ReportsProgress (job.chunks (job.dataLen + 1) user blockBuffer 0).length job.dataLen job.pUserData
      es := by
  obtain ⟨es', htr', hcall⟩ := uCxXmodemSend_call h
  obtain rfl : es = es' := List.append_cancel_left (htr.symm.trans htr')
  obtain ⟨hne, hsum⟩ := hconf.chunks (job.dataLen + 1) user (Nat.lt_succ_self _) hbuf (Nat.zero_le _)
  exact hcall.reports hcb hne (by omega)

/-- There is a run with a report. -/
theorem exists_report (hcb : job.progressCallback = true) (hopened : job.cfg.opened = true)
    (hlen : 0 < job.dataLen) (htime : -2 ^ 31 < job.cfg.timeoutMs) (user : υ) {blockBuffer : List UInt8}
    (hbuf : blockBuffer.length = blockSize1K) :
    ∃ io r io' es sent, uCxXmodemSend job user blockBuffer io = some (r, io') ∧
      io'.uart.trace = io.uart.trace ++ es ∧ .progress job.dataLen sent job.pUserData ∈ es := by
  obtain ⟨packet, more, sent, r, io', hrun, es, htr⟩ :=
    exists_acked hconf hopened hlen htime user hbuf
  refine ⟨_, r, io', io'.uart.trace, sent, hrun, rfl, ?_⟩
  rw [htr]
  simp [Job.report, hcb]

end

section
variable {f : FileJob υ} {job : Job υ} (hjob : f.job = some job) (hconf : job.Conforms) {user : υ}
  {blockBuffer : List UInt8} (hbuf : blockBuffer.length = blockSize1K)
include hjob hconf hbuf

theorem FileJob.reports_pUserData (hmay : f.MayReport)
    (h : (Sending.sendFile f).Reports user blockBuffer) : f.pUserData = f.pFileCtx := by
  obtain ⟨hcb, hopened, -, htime⟩ := hmay
  obtain ⟨hcfg, hcb', hptr, hlen⟩ := FileJob.job_eq hjob
  rw [← hcb'] at hcb
  rw [← hcfg] at hopened htime
  obtain ⟨io, r, io', es, sent, hrun, htr, hmem⟩ :=
    exists_report hconf hcb hopened hlen htime user hbuf
  have hrun' : (Sending.sendFile f).run user blockBuffer io = some (r, io') := by
    rw [Sending.run_job (show (Sending.sendFile f).job = some job from hjob)]
    exact hrun
  have := (h job hjob hcb io r io' es hrun' htr).pUserData_eq hmem
  exact this.symm.trans hptr

theorem FileJob.reports (h : f.MayReport → f.pUserData = f.pFileCtx) :
    (Sending.sendFile f).Reports user blockBuffer := by
  intro job' hjob' hcb io r io' es hrun htr
  obtain rfl : job = job' := Option.some.inj (hjob.symm.trans hjob')
  rw [Sending.run_job hjob'] at hrun
  obtain ⟨hcfg, hcb', hptr, hlen⟩ := FileJob.job_eq hjob
  by_cases hmay : f.MayReport
  · have hreports := uCxXmodemSend_reports hconf hcb hbuf hrun htr
    rw [hptr, ← h hmay] at hreports
    exact hreports
  · have hquiet : job.cfg.opened = false ∨ job.cfg.timeoutMs ≤ -2 ^ 31 := by
      by_cases hopened : job.cfg.opened = false
      · exact .inl hopened
      · refine .inr (Int.not_lt.1 fun htime => hmay ⟨hcb' ▸ hcb, ?_, ?_, hcfg ▸ htime⟩)
        · rw [← hcfg]
          simpa using hopened
        · rw [hjob]
          exact Option.some_ne_none job
    obtain ⟨es', htr', hes'⟩ := uCxXmodemSend_silent hquiet hrun
    obtain rfl : es = es' := List.append_cancel_left (htr.symm.trans htr')
    exact ⟨[], by rw [blockNotes, hes']; rfl, .nil, nofun, nofun⟩

end

/-- **When the reports of a call are as promised**: always in a call of `uCxXmodemSend`, and in a call of
`uCxXmodemSendFile` with a report only if the caller's pointer is the one of the file context. -/
theorem Sending.reports_iff {x : Sending υ} (hconf : ∀ job, x.job = some job → job.Conforms) (user : υ)
    {blockBuffer : List UInt8} (hbuf : blockBuffer.length = blockSize1K) :
    x.Reports user blockBuffer ↔
      ∀ f, x = .sendFile f → f.MayReport → f.pUserData = f.pFileCtx := by
  constructor
  · rintro h f rfl hmay
    obtain ⟨job, hjob⟩ := Option.ne_none_iff_exists'.1 hmay.2.2.1
    exact FileJob.reports_pUserData hjob (hconf job hjob) hbuf hmay h
  · intro h
    cases x with
    | send job =>
      intro job' hjob hcb io r io' es hrun htr
      cases hjob
      exact uCxXmodemSend_reports (hconf job rfl) hcb hbuf hrun htr
    | sendFile f =>
      cases hjob : f.job with
      | none =>
        intro job hjob'
        cases hjob.symm.trans hjob'
      | some job => exact FileJob.reports hjob (hconf job hjob) hbuf (h f rfl)

/-- A file in memory, with the position of the stream as its state. -/
def memoryFile (data : List UInt8) : File Nat where
  fileSize := data.length
  fseek _ offset := (true, offset)
  fread pos n := ((data.drop pos).take n, pos + n)

/-- One byte that is sent from a file. -/
def byteFile : FileJob Nat where
  cfg := { use1K := false, timeoutMs := 15000, opened := true }
  pFile := some (memoryFile [0x41])
  progressCallback := true
  pUserData := 1
  pFileCtx := 2

theorem byteFile_conforms : ∀ job, (Sending.sendFile byteFile).job = some job → job.Conforms := by
  intro job hjob
  cases hjob
  intro user blockBuffer offset maxLen hbuf hpos hmax hle
  have hdata : offset + maxLen ≤ 1 := hle
  obtain ⟨rfl, rfl⟩ : offset = 0 ∧ maxLen = 1 := by omega
  have hpos : (0 : Int) < toInt32 1 := by decide
  have hmax : toInt32 1 ≤ 1 := by decide
  refine ⟨hpos, hmax, ?_⟩
  simpa [fileDataCallback, memoryFile] using hbuf

theorem Sending.reports_iff_byteFile :
    (Sending.sendFile byteFile).Reports 0 (List.replicate 1024 0) ↔
      ∀ f, Sending.sendFile byteFile = .sendFile f → f.MayReport → f.pUserData = f.pFileCtx :=
  reports_iff byteFile_conforms 0 (List.length_replicate ..)

theorem byteFile_reports_context : ¬∀ (x : Sending Nat) (user : Nat) (blockBuffer : List UInt8),
    (∀ job, x.job = some job → job.Conforms) → blockBuffer.length = blockSize1K →
      x.Reports user blockBuffer := by
  intro h
  have hmay : byteFile.MayReport := ⟨rfl, rfl, Option.some_ne_none _, by decide⟩
  have hbuf : (List.replicate 1024 (0 : UInt8)).length = blockSize1K := List.length_replicate ..
  have := FileJob.reports_pUserData rfl (byteFile_conforms _ rfl) hbuf hmay
    (h _ 0 _ byteFile_conforms hbuf)
  exact absurd this (by decide)

end Xmodem
