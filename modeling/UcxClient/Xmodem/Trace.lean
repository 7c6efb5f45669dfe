import UcxClient.Xmodem.Await

/-!
# What a transfer does on the UART

`Transfer` lists what the transfer of the remaining blocks can do, and with which result: one constructor
for each way in which it ends and one for a block that is acknowledged. `Call` has the wait for the start
signal before it. Every call of `uCxXmodemSend` does that (`uCxXmodemSend_call`), with the blocks that it
makes of the answers of the data callback (`Job.chunks`).

`Acked packet es`: the events `es` are writes of `packet`, one of them complete, and reads, the last of
which is the first ACK. `uCxXmodemSend_trace`: what a transfer that returns 0 does after its start
signal is that for each of the blocks, and then for EOT. The number of a block is its place, modulo 256
(`number_packets`).
-/

open ByteMem

universe u

namespace Xmodem

/-- An event before `packet` is acknowledged. -/
def Event.Pending (packet : List UInt8) : Event → Prop
  | .wrote pData _ => pData = packet
  | .read byte => byte ≠ some ack
  | .progress .. => True

/-- `packet` was written and then an ACK read, the first since the events began. -/
def Acked (packet : List UInt8) (es : List Event) : Prop :=
  ∃ pre, es = pre ++ [.read (some ack)] ∧ (∀ e ∈ pre, e.Pending packet) ∧
    .wrote packet packet.length ∈ pre

/-- The packets were acknowledged in turn. -/
inductive AckedAll : List (List UInt8) → List Event → Prop
  | nil : AckedAll [] []
  | cons {packet : List UInt8} {packets : List (List UInt8)} {es es' : List Event} :
      Acked packet es → AckedAll packets es' → AckedAll (packet :: packets) (es ++ es')

/-- Events of the wait come before it. -/
theorem Acked.prepend {packet : List UInt8} {es es' : List Event} (h : Acked packet es')
    (hes : ∀ e ∈ es, e.Pending packet) : Acked packet (es ++ es') := by
  obtain ⟨pre, rfl, hpre, hw⟩ := h
  refine ⟨es ++ pre, (List.append_assoc ..).symm, ?_, List.mem_append_right _ hw⟩
  intro e he
  rcases List.mem_append.1 he with he | he
  · exact hes e he
  · exact hpre e he

theorem AckedAll.prepend {packets : List (List UInt8)} {es es' : List Event}
    (h : AckedAll packets es') (hp : packets ≠ []) (hes : ∀ p, ∀ e ∈ es, e.Pending p) :
    AckedAll packets (es ++ es') := by
  cases h with
  | nil => exact absurd rfl hp
  | cons ha hall =>
    rw [← List.append_assoc]
    exact .cons (ha.prepend (hes _)) hall

/-! ## The blocks -/

variable {υ : Type u}

/-- What the data callback writes, call by call, in a transfer that gets that far. -/
def Job.chunks (job : Job υ) : Nat → υ → List UInt8 → Nat → List (List UInt8)
  | 0, _, _, _ => []
  | n + 1, user, blockBuffer, offset =>
    if offset < job.dataLen then
      let a := job.request user blockBuffer offset
      a.blockBuffer.take a.bytesRead.toNat ::
        Job.chunks job n a.user a.blockBuffer (offset + a.bytesRead.toNat)
    else []

/-- The packets of blocks with these data, from the block number on. -/
def packets (blockSize : Nat) : UInt8 → List (List UInt8) → List (List UInt8)
  | _, [] => []
  | blockNum, c :: cs => blockPacket blockNum c blockSize :: packets blockSize (blockNum + 1) cs

/-! ## The tries for a block -/

/-- An event while the response to `packet` is awaited. -/
def Event.Try (packet : List UInt8) : Event → Prop
  | .wrote pData _ => pData = packet
  | .read byte => byte ≠ some ack ∧ byte ≠ some can
  | .progress .. => False

def Event.isWrite : Event → Bool
  | .wrote .. => true
  | _ => false

/-- Tries for `packet` without a response that ends them, with `n` writes at most. -/
structure Trying (packet : List UInt8) (n : Nat) (es : List Event) : Prop where
  tries : ∀ e ∈ es, e.Try packet
  writes : es.countP Event.isWrite ≤ n

/-- What `xmodemSendBlock` does when `n` tries are left, and its result. -/
inductive Tried (packet : List UInt8) (n : Nat) : List Event → Int → Prop
  | acked {es : List Event} : Trying packet n es → .wrote packet packet.length ∈ es →
      Tried packet n (es ++ [.read (some ack)]) 0
  | cancelled {es : List Event} : Trying packet n es → Tried packet n (es ++ [.read (some can)]) (-3)
  | failed {es : List Event} : Trying packet n es → Tried packet n es (-1)

/-- What `xmodemSendEot` does, and its result. -/
inductive Ended : List Event → Int → Prop
  | unwritten {bytesWritten : Int} : bytesWritten ≠ 1 → Ended [.wrote [eot] bytesWritten] (-1)
  | expired {bytes : List (Option UInt8)} : some ack ∉ bytes →
      Ended (.wrote [eot] 1 :: bytes.map .read) (-1)
  | acked {bytes : List (Option UInt8)} : some ack ∉ bytes →
      Ended (.wrote [eot] 1 :: bytes.map .read ++ [.read (some ack)]) 0

theorem Trying.append {packet : List UInt8} {m n : Nat} {es es' : List Event} (h : Trying packet m es)
    (h' : Trying packet n es') : Trying packet (m + n) (es ++ es') := by
  refine ⟨List.forall_mem_append.2 ⟨h.tries, h'.tries⟩, ?_⟩
  have := h.writes
  have := h'.writes
  rw [List.countP_append]
  omega

/-- Tries that came to nothing come before the others. -/
theorem Tried.prepend {packet : List UInt8} {m n : Nat} {es es' : List Event} {r : Int}
    (h : Trying packet m es) (h' : Tried packet n es' r) : Tried packet (m + n) (es ++ es') r := by
  cases h' with
  | acked htry hw =>
    rw [← List.append_assoc]
    exact .acked (h.append htry) (List.mem_append_right _ hw)
  | cancelled htry =>
    rw [← List.append_assoc]
    exact .cancelled (h.append htry)
  | failed htry => exact .failed (h.append htry)

/-- A write without a usable result. -/
theorem trying_write (packet : List UInt8) (bytesWritten : Int) :
    Trying packet 1 [.wrote packet bytesWritten] :=
  ⟨by simp [Event.Try], by simp [Event.isWrite]⟩

/-- Reads without a response. -/
theorem trying_reads {bytes : List (Option UInt8)} (packet : List UInt8)
    (h : ∀ byte ∈ bytes, byte ≠ some ack ∧ byte ≠ some can) : Trying packet 0 (bytes.map .read) := by
  constructor
  · intro e he
    obtain ⟨byte, hbyte, rfl⟩ := List.mem_map.1 he
    exact h byte hbyte
  · have hnone : (bytes.map Event.read).countP Event.isWrite = 0 :=
      List.countP_eq_zero.2 (List.forall_mem_map.2 fun _ _ => Bool.false_ne_true)
    exact Nat.le_of_eq hnone

theorem responseAnswer_some {byte : Option UInt8} {ret : Option Int} (h : responseAnswer byte = some ret) :
    byte = some ack ∧ ret = some 0 ∨ byte = some nak ∧ ret = none ∨ byte = some can ∧ ret = some (-3) := by
  unfold responseAnswer at h
  repeat' split at h
  all_goals simp_all

theorem responseAnswer_none {byte : Option UInt8} (h : responseAnswer byte = none) :
    byte ≠ some ack ∧ byte ≠ some can := by
  unfold responseAnswer at h
  repeat' split at h
  all_goals simp_all

/-- **What the tries for a block do.** -/
theorem retryLoop_tried {timeoutMs : Int} {packet : List UInt8} {n : Nat} {io io' : Port} {r : Int}
    (h : retryLoop timeoutMs packet n io = some (r, io')) :
    ∃ es, io'.uart.trace = io.uart.trace ++ es ∧ Tried packet n es r := by
  induction n generalizing io with
  | zero =>
    cases h
    exact ⟨[], by simp, .failed ⟨nofun, Nat.le_refl 0⟩⟩
  | succ n ih =>
    obtain ⟨⟨bytesWritten, uart⟩, hwrite, h⟩ := Option.bind_eq_some_iff.1 h
    have hw := Uart.write_eq hwrite
    have htry := trying_write packet bytesWritten
    rw [Nat.add_comm n 1]
    dsimp only at h
    split at h
    · obtain ⟨es, htr, hes⟩ := ih h
      exact ⟨[.wrote packet bytesWritten] ++ es, by rw [htr, hw]; simp, hes.prepend htry⟩
    · next hn =>
      obtain ⟨⟨startTime, io1⟩, htime, h⟩ := Option.bind_eq_some_iff.1 h
      obtain ⟨⟨ret, io2⟩, hresp, h⟩ := Option.bind_eq_some_iff.1 h
      dsimp only at hresp h
      have hio1 : io1.uart = uart := Port.getTimeMs_uart htime
      have hfull : bytesWritten = packet.length := by simpa using hn
      rw [responseLoop_eq, hio1] at hresp
      obtain ⟨bytes, hbytes, hend⟩ := awaitByte_trace hresp
      have hreads := htry.append (trying_reads packet fun byte hb => responseAnswer_none (hbytes byte hb))
      have hmem : .wrote packet packet.length ∈ [.wrote packet bytesWritten] ++ bytes.map Event.read := by
        simp [hfull]
      rw [hw] at hend
      -- another try
      have again : ∀ es, Trying packet 1 es → io2.uart.trace = io.uart.trace ++ es → ret = none →
          ∃ es, io'.uart.trace = io.uart.trace ++ es ∧ Tried packet (1 + n) es r := by
        rintro es hes htr rfl
        obtain ⟨es', htr', hes'⟩ := ih h
        exact ⟨es ++ es', by rw [htr', htr]; simp, hes'.prepend hes⟩
      have hle : Trying packet (1 + n) ([.wrote packet bytesWritten] ++ bytes.map .read) :=
        ⟨hreads.tries, Nat.le_trans hreads.writes (by omega)⟩
      rcases hend with ⟨hret, htr⟩ | ⟨byte, hanswer, htr⟩
      · exact again _ hreads (by rw [htr]; simp) hret
      · rcases responseAnswer_some hanswer with ⟨rfl, rfl⟩ | ⟨rfl, hret⟩ | ⟨rfl, rfl⟩
        · cases h
          exact ⟨_, by rw [htr]; simp, .acked hle hmem⟩
        · have hnak : Trying packet 0 ([some nak].map .read) :=
            trying_reads packet (List.forall_mem_singleton.2 (by decide))
          exact again _ (hreads.append hnak) (by rw [htr]; simp) hret
        · cases h
          exact ⟨_, by rw [htr]; simp, .cancelled hle⟩

theorem xmodemSendEot_ended {timeoutMs : Int} {io io' : Port} {r : Int}
    (h : xmodemSendEot timeoutMs io = some (r, io')) :
    ∃ es, io'.uart.trace = io.uart.trace ++ es ∧ Ended es r := by
  obtain ⟨⟨bytesWritten, uart⟩, hwrite, h⟩ := Option.bind_eq_some_iff.1 h
  have hw := Uart.write_eq hwrite
  dsimp only at h
  split at h
  · next hn =>
    cases h
    exact ⟨_, hw, .unwritten hn⟩
  · next hn =>
    obtain ⟨⟨startTime, io1⟩, htime, h⟩ := Option.bind_eq_some_iff.1 h
    have hio1 : io1.uart = uart := Port.getTimeMs_uart htime
    obtain rfl : bytesWritten = 1 := by simpa using hn
    dsimp only at h
    rw [eotLoop_eq, hio1] at h
    obtain ⟨bytes, hbytes, hend⟩ := awaitByte_trace h
    have hnone : some ack ∉ bytes := fun hmem => by
      have := hbytes _ hmem
      cases this
    rw [hw] at hend
    rcases hend with ⟨rfl, htr⟩ | ⟨byte, hanswer, htr⟩
    · exact ⟨_, by rw [htr]; simp, .expired hnone⟩
    · unfold eotAnswer at hanswer
      split at hanswer
      · next hack =>
        cases hanswer
        subst hack
        exact ⟨_, by rw [htr]; simp, .acked hnone⟩
      · cases hanswer

/-! ## The transfer -/

/-- The call of the progress callback, if there is one. -/
def Job.reported (job : Job υ) (offset : Nat) : List Event :=
  if job.progressCallback then [.progress job.dataLen offset job.pUserData] else []

/-- What the transfer of the blocks with the data `cs` does from a block number and an offset on, and its
result. -/
inductive Transfer (job : Job υ) : UInt8 → Nat → List (List UInt8) → List Event → Int → Prop
  /-- the data callback fails -/
  | refused {blockNum : UInt8} {offset : Nat} {c : List UInt8} {cs : List (List UInt8)} :
      Transfer job blockNum offset (c :: cs) [] (-4)
  | stopped {blockNum : UInt8} {offset : Nat} {c : List UInt8} {cs : List (List UInt8)}
      {es : List Event} {r : Int} : Tried (blockPacket blockNum c job.cfg.blockSize) maxRetries es r →
      r ≠ 0 → Transfer job blockNum offset (c :: cs) es r
  | next {blockNum : UInt8} {offset : Nat} {c : List UInt8} {cs : List (List UInt8)}
      {es es' : List Event} {r : Int} :
      Tried (blockPacket blockNum c job.cfg.blockSize) maxRetries es 0 →
      Transfer job (blockNum + 1) (offset + c.length) cs es' r →
      Transfer job blockNum offset (c :: cs) (es ++ job.reported (offset + c.length) ++ es') r
  | ended {blockNum : UInt8} {offset : Nat} {es : List Event} {r : Int} : Ended es r →
      Transfer job blockNum offset [] es r

theorem Job.report_trace (job : Job υ) (offset : Nat) (io : Port) :
    (job.report offset io).uart.trace = io.uart.trace ++ job.reported offset := by
  unfold Job.report Job.reported
  split
  · rfl
  · simp

theorem Job.pauseBefore_uart (job : Job υ) {offset : Nat} {io io' : Port}
    (h : job.pauseBefore offset io = some io') : io'.uart = io.uart := by
  unfold Job.pauseBefore at h
  split at h
  · exact pause_uart h
  · cases h
    rfl

/-- **What the loop over the blocks does.** -/
theorem sendLoop_transfer {job : Job υ} {n : Nat} {x : Progress υ} {io : Port} {r : Int}
    (h : sendLoop job n x = some (r, io)) :
    ∃ es, io.uart.trace = x.io.uart.trace ++ es ∧
      Transfer job x.blockNum x.offset (job.chunks n x.user x.blockBuffer x.offset) es r := by
  induction n generalizing x with
  | zero => cases h
  | succ n ih =>
    simp only [sendLoop] at h
    simp only [Job.chunks]
    split at h
    · next hlt =>
      rw [if_pos hlt]
      split at h
      · cases h
        exact ⟨[], by simp, .refused⟩
      · split at h
        · cases h
          exact ⟨[], by simp, .refused⟩
        · split at h
          · cases h
          · next hneg _ hfits =>
            obtain ⟨⟨result, io1⟩, hblock, h⟩ := Option.bind_eq_some_iff.1 h
            obtain ⟨es, htr, hes⟩ := retryLoop_tried hblock
            dsimp only at h
            split at h
            · next hres =>
              cases h
              exact ⟨es, htr, .stopped hes hres⟩
            · next hres =>
              obtain ⟨io2, hpause, h⟩ := Option.bind_eq_some_iff.1 h
              obtain rfl : result = 0 := by simpa using hres
              obtain ⟨es', htr', hes'⟩ := ih h
              have hlen : ((job.request x.user x.blockBuffer x.offset).blockBuffer.take
                  (job.request x.user x.blockBuffer x.offset).bytesRead.toNat).length =
                  (job.request x.user x.blockBuffer x.offset).bytesRead.toNat := by
                rw [List.length_take]
                omega
              have hnext := Transfer.next hes (by rw [hlen]; exact hes')
              rw [hlen] at hnext
              refine ⟨_, ?_, hnext⟩
              rw [htr']
              dsimp only
              rw [job.pauseBefore_uart hpause, job.report_trace, htr]
              simp only [List.append_assoc]
    · next hge =>
      obtain ⟨es, htr, hes⟩ := xmodemSendEot_ended h
      rw [if_neg hge]
      exact ⟨es, htr, .ended hes⟩

/-- **What a call of `uCxXmodemSend` does**: nothing, or a wait for the start signal, and the transfer if
the signal comes. -/
inductive Call (job : Job υ) (cs : List (List UInt8)) : List Event → Int → Prop
  | idle : Call job cs [] (-1)
  | expired {ignored : List (Option UInt8)} : (∀ byte ∈ ignored, startAnswer byte = none) →
      Call job cs (ignored.map .read) (-1)
  | declined {ignored : List (Option UInt8)} {byte : Option UInt8} {r : Int} :
      (∀ byte ∈ ignored, startAnswer byte = none) → startAnswer byte = some r → r ≠ 0 →
      Call job cs (ignored.map .read ++ [.read byte]) r
  | started {ignored : List (Option UInt8)} {es : List Event} {r : Int} :
      (∀ byte ∈ ignored, startAnswer byte = none) → Transfer job 1 0 cs es r →
      Call job cs (ignored.map .read ++ [.read (some cchr)] ++ es) r

theorem startAnswer_zero {byte : Option UInt8} (h : startAnswer byte = some 0) : byte = some cchr := by
  unfold startAnswer at h
  repeat' split at h
  all_goals simp_all

theorem uCxXmodemSend_call {job : Job υ} {user : υ} {blockBuffer : List UInt8} {io io' : Port} {r : Int}
    (h : uCxXmodemSend job user blockBuffer io = some (r, io')) :
    ∃ es, io'.uart.trace = io.uart.trace ++ es ∧
      Call job (job.chunks (job.dataLen + 1) user blockBuffer 0) es r := by
  unfold uCxXmodemSend at h
  split at h
  · cases h
    exact ⟨[], by simp, .idle⟩
  · obtain ⟨⟨result, io1⟩, hstart, h⟩ := Option.bind_eq_some_iff.1 h
    obtain ⟨⟨startTime, io2⟩, htime, hloop⟩ := Option.bind_eq_some_iff.1 hstart
    dsimp only at hloop h
    rw [startLoop_eq, Port.getTimeMs_uart htime] at hloop
    obtain ⟨ignored, hignored, hend⟩ := awaitByte_trace hloop
    split at h
    · next hres =>
      cases h
      rcases hend with ⟨rfl, htr⟩ | ⟨byte, hanswer, htr⟩
      · exact ⟨_, htr, .expired hignored⟩
      · exact ⟨_, by rw [htr, List.append_assoc], .declined hignored hanswer hres⟩
    · next hres =>
      obtain rfl : result = 0 := by simpa using hres
      obtain ⟨es, htr', hes⟩ := sendLoop_transfer h
      rcases hend with ⟨hr, -⟩ | ⟨byte, hanswer, htr⟩
      · cases hr
      · obtain rfl := startAnswer_zero hanswer
        exact ⟨_, by rw [htr', htr]; simp only [List.append_assoc], .started hignored hes⟩

/-! ## What a result of 0 means -/

theorem Event.Try.pending {packet : List UInt8} {e : Event} (h : e.Try packet) : e.Pending packet := by
  cases e with
  | wrote => exact h
  | read => exact h.1
  | progress => exact h.elim

theorem Tried.acks {packet : List UInt8} {n : Nat} {es : List Event} (h : Tried packet n es 0) :
    Acked packet es := by
  cases h with
  | acked htry hw => exact ⟨_, rfl, fun e he => (htry.tries e he).pending, hw⟩

theorem Ended.acks {es : List Event} (h : Ended es 0) : Acked [eot] es := by
  cases h with
  | acked hack =>
    refine ⟨_, rfl, ?_, List.mem_cons_self⟩
    refine List.forall_mem_cons.2 ⟨rfl, List.forall_mem_map.2 fun byte hbyte => ?_⟩
    rintro rfl
    exact hack hbyte

theorem Job.reported_pending (job : Job υ) (offset : Nat) (p : List UInt8) :
    ∀ e ∈ job.reported offset, e.Pending p := by
  unfold Job.reported
  split
  · exact List.forall_mem_singleton.2 trivial
  · exact nofun

theorem Transfer.acks {job : Job υ} {blockNum : UInt8} {offset : Nat} {cs : List (List UInt8)}
    {es : List Event} (h : Transfer job blockNum offset cs es 0) :
    AckedAll (packets job.cfg.blockSize blockNum cs ++ [[eot]]) es := by
  generalize hr : (0 : Int) = r at h
  induction h with
  | refused => cases hr
  | stopped _ hres => exact absurd hr.symm hres
  | @next _ offset c _ _ _ _ htried _ ih =>
    subst hr
    rw [List.append_assoc]
    exact .cons htried.acks ((ih rfl).prepend (by simp) fun p => job.reported_pending _ p)
  | @ended _ _ es _ hend =>
    subst hr
    have := AckedAll.cons hend.acks .nil
    rwa [List.append_nil] at this

/-- **What a transfer that returns 0 does on the UART.** -/
theorem uCxXmodemSend_trace {job : Job υ} {user : υ} {blockBuffer : List UInt8} {io io' : Port}
    (h : uCxXmodemSend job user blockBuffer io = some (0, io')) :
    ∃ (bytes : List (Option UInt8)) (es : List Event),
      io'.uart.trace = io.uart.trace ++ bytes.map .read ++ es ∧
      AckedAll (packets job.cfg.blockSize 1 (job.chunks (job.dataLen + 1) user blockBuffer 0) ++
        [[eot]]) es := by
  obtain ⟨es, htr, hcall⟩ := uCxXmodemSend_call h
  generalize hr : (0 : Int) = r at hcall
  cases hcall with
  | idle => cases hr
  | expired => cases hr
  | declined _ _ hres => exact absurd hr.symm hres
  | @started ignored es r hignored htransfer =>
    subst hr
    exact ⟨ignored ++ [some cchr], es, by rw [htr]; simp, htransfer.acks⟩

end Xmodem
