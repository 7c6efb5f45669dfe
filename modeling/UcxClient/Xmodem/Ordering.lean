import UcxClient.Xmodem.Reassembly

/-!
# The order of what a transfer sends

`InOrder ps es`: the events `es` are writes of the packets `ps` in turn and then of EOT, with reads and
reports between them. There are no more than `maxRetries` writes of a packet, and the next one is written
only behind an ACK that was read after a complete write of it. `CanStops`: a CAN that is read before EOT is
written is the last event, and the result is -3.

`uCxXmodemSend_ordered` has both for what a call does until it returns, and for every part of it that the
call has done so far (`InOrder.of_prefix`).
-/

universe u

namespace Xmodem

/-- Reads, reports and at most `n` writes, all of `packet`. -/
structure WritesOnly (packet : List UInt8) (n : Nat) (es : List Event) : Prop where
  only : ∀ pData bytesWritten, .wrote pData bytesWritten ∈ es → pData = packet
  count : es.countP Event.isWrite ≤ n

/-- And an ACK was read after a complete write. -/
structure Delivered (packet : List UInt8) (es : List Event) : Prop extends
    WritesOnly packet maxRetries es where
  acked : ∃ a b c, es = a ++ .wrote packet packet.length :: b ++ .read (some ack) :: c

inductive InOrder : List (List UInt8) → List Event → Prop
  | trying {packet : List UInt8} {ps : List (List UInt8)} {es : List Event} :
      WritesOnly packet maxRetries es → InOrder (packet :: ps) es
  | next {packet : List UInt8} {ps : List (List UInt8)} {es es' : List Event} :
      Delivered packet es → InOrder ps es' → InOrder (packet :: ps) (es ++ es')
  | ending {es : List Event} : WritesOnly [eot] 1 es → InOrder [] es

/-- A CAN is the last event and the result -3, or it was read behind a write of EOT. (No packet is `[eot]`:
`blockPacket_ne_eot`.) -/
def CanStops (r : Int) (es : List Event) : Prop :=
  ∀ a b, es = a ++ .read (some can) :: b → (∃ bytesWritten, .wrote [eot] bytesWritten ∈ a) ∨ b = [] ∧ r = -3

/-- An ACK was read after EOT had been written. -/
def EotAcked (es : List Event) : Prop :=
  ∃ a b, es = a ++ .wrote [eot] 1 :: b ++ [.read (some ack)]

variable {packet : List UInt8} {ps : List (List UInt8)} {n : Nat} {es es' : List Event} {r : Int}

/-! ## Writes of one packet -/

theorem WritesOnly.sublist (h : WritesOnly packet n es) (hsub : es'.Sublist es) :
    WritesOnly packet n es' :=
  ⟨fun pData k hmem => h.only pData k (hsub.subset hmem), Nat.le_trans hsub.countP_le h.count⟩

theorem WritesOnly.seq {k : Nat} (h : WritesOnly packet n es) (h' : WritesOnly packet k es') :
    WritesOnly packet (n + k) (es ++ es') := by
  refine ⟨fun pData bytesWritten hmem => ?_, ?_⟩
  · rcases List.mem_append.1 hmem with hmem | hmem
    · exact h.only pData bytesWritten hmem
    · exact h'.only pData bytesWritten hmem
  · rw [List.countP_append]
    exact Nat.add_le_add h.count h'.count

theorem writesOnly_none (hes : ∀ e ∈ es, e.isWrite = false) : WritesOnly packet 0 es := by
  refine ⟨fun pData bytesWritten hmem => ?_, ?_⟩
  · cases hes _ hmem
  · exact Nat.le_of_eq (List.countP_eq_zero.2 fun e he => by simp [hes e he])

theorem WritesOnly.append (h : WritesOnly packet n es) (hes' : ∀ e ∈ es', e.isWrite = false) :
    WritesOnly packet n (es ++ es') :=
  h.seq (writesOnly_none hes')

theorem WritesOnly.prepend (h : WritesOnly packet n es) (hes' : ∀ e ∈ es', e.isWrite = false) :
    WritesOnly packet n (es' ++ es) := by
  have hseq := (writesOnly_none hes').seq h
  rwa [Nat.zero_add] at hseq

theorem Delivered.append (h : Delivered packet es) (hes' : ∀ e ∈ es', e.isWrite = false) :
    Delivered packet (es ++ es') := by
  obtain ⟨a, b, c, rfl⟩ := h.acked
  exact ⟨h.toWritesOnly.append hes', a, b, c ++ es', by simp⟩

theorem Delivered.prepend (h : Delivered packet es) (hes' : ∀ e ∈ es', e.isWrite = false) :
    Delivered packet (es' ++ es) := by
  obtain ⟨a, b, c, rfl⟩ := h.acked
  exact ⟨h.toWritesOnly.prepend hes', es' ++ a, b, c, by simp⟩

/-! ## Writes in order -/

theorem InOrder.prepend (h : InOrder ps es) (hes' : ∀ e ∈ es', e.isWrite = false) :
    InOrder ps (es' ++ es) := by
  cases h with
  | trying h => exact .trying (h.prepend hes')
  | next hd h =>
    rw [← List.append_assoc]
    exact .next (hd.prepend hes') h
  | ending h => exact .ending (h.prepend hes')

theorem InOrder.of_prefix (h : InOrder ps es) (hpre : es' <+: es) : InOrder ps es' := by
  induction h generalizing es' with
  | trying h => exact .trying (h.sublist hpre.sublist)
  | ending h => exact .ending (h.sublist hpre.sublist)
  | @next packet ps es es₁ hd _ ih =>
    rcases List.prefix_or_prefix_of_prefix hpre (List.prefix_append es es₁) with hle | ⟨t, rfl⟩
    · exact .trying (hd.toWritesOnly.sublist hle.sublist)
    · exact .next hd (ih ((List.prefix_append_right_inj es).1 hpre))

/-! ## What the steps of a transfer keep -/

theorem Trying.writesOnly (h : Trying packet n es) : WritesOnly packet n es :=
  ⟨fun _ _ hmem => h.tries _ hmem, h.writes⟩

theorem Tried.writesOnly (h : Tried packet n es r) : WritesOnly packet n es := by
  cases h with
  | acked htry => exact htry.writesOnly.append (List.forall_mem_singleton.2 rfl)
  | cancelled htry => exact htry.writesOnly.append (List.forall_mem_singleton.2 rfl)
  | failed htry => exact htry.writesOnly

theorem Tried.delivered (h : Tried packet maxRetries es 0) : Delivered packet es := by
  refine ⟨h.writesOnly, ?_⟩
  obtain ⟨pre, rfl, -, hmem⟩ := h.acks
  obtain ⟨a, b, rfl⟩ := List.append_of_mem hmem
  exact ⟨a, b, [], rfl⟩

theorem map_read_isWrite (bytes : List (Option UInt8)) :
    ∀ e ∈ bytes.map Event.read, e.isWrite = false :=
  List.forall_mem_map.2 fun _ _ => rfl

theorem writesOnly_eot (bytesWritten : Int) : WritesOnly [eot] 1 [.wrote [eot] bytesWritten] :=
  ⟨by simp, by simp [Event.isWrite]⟩

theorem Ended.writesOnly (h : Ended es r) : WritesOnly [eot] 1 es := by
  cases h with
  | unwritten => exact writesOnly_eot _
  | @expired bytes => exact (writesOnly_eot 1).append (map_read_isWrite bytes)
  | @acked bytes =>
    have := (writesOnly_eot 1).append (map_read_isWrite bytes)
    exact this.append (List.forall_mem_singleton.2 rfl)

variable {υ : Type u} {job : Job υ} {cs : List (List UInt8)}

theorem Job.reported_isWrite (job : Job υ) (offset : Nat) :
    ∀ e ∈ job.reported offset, e.isWrite = false := by
  unfold Job.reported
  split
  · exact List.forall_mem_singleton.2 rfl
  · exact nofun

theorem Transfer.inOrder {blockNum : UInt8} {offset : Nat} (h : Transfer job blockNum offset cs es r) :
    InOrder (packets job.cfg.blockSize blockNum cs) es := by
  induction h with
  | refused => exact .trying ⟨nofun, Nat.zero_le _⟩
  | stopped h => exact .trying h.writesOnly
  | next h _ ih => exact .next (h.delivered.append (job.reported_isWrite _)) ih
  | ended h => exact .ending h.writesOnly

/-! ## CAN -/

theorem CanStops.prepend (h : CanStops r es) (hes' : .read (some can) ∉ es') :
    CanStops r (es' ++ es) := by
  intro a b heq
  rcases List.append_eq_append_iff.1 heq with ⟨a', rfl, rfl⟩ | ⟨c', rfl, hc⟩
  · rcases h a' b rfl with ⟨k, hk⟩ | hend
    · exact .inl ⟨k, List.mem_append_right _ hk⟩
    · exact .inr hend
  · cases c' with
    | nil => exact (h [] b hc.symm).imp (fun ⟨_, hk⟩ => absurd hk List.not_mem_nil) id
    | cons e c' =>
      obtain ⟨rfl, -⟩ := List.cons.inj hc
      exact absurd (List.mem_append_right _ List.mem_cons_self) hes'

theorem canStops_none (h : .read (some can) ∉ es) : CanStops r es := by
  rintro a b rfl
  exact absurd (List.mem_append_right _ List.mem_cons_self) h

theorem canStops_can : CanStops (-3) [.read (some can)] := by
  intro a b heq
  cases a with
  | nil => exact .inr ⟨(List.cons.inj heq).2.symm, rfl⟩
  | cons e a => simp at heq

theorem Trying.no_can (h : Trying packet n es) : .read (some can) ∉ es :=
  fun hmem => (h.tries _ hmem).2 rfl

theorem Tried.canStops (h : Tried packet n es r) : CanStops r es := by
  cases h with
  | acked htry => exact (canStops_none (by decide)).prepend htry.no_can
  | cancelled htry => exact canStops_can.prepend htry.no_can
  | failed htry => exact canStops_none htry.no_can

theorem Tried.no_can (h : Tried packet n es 0) : .read (some can) ∉ es := by
  cases h with
  | acked htry =>
    rw [List.mem_append, not_or]
    exact ⟨htry.no_can, by decide⟩

/-- The first event of the end of a transfer is a write of EOT. -/
theorem Ended.canStops (h : Ended es r) : CanStops r es := by
  have hfirst : ∃ bytesWritten es', es = .wrote [eot] bytesWritten :: es' := by
    cases h with
    | unwritten => exact ⟨_, _, rfl⟩
    | expired => exact ⟨_, _, rfl⟩
    | acked => exact ⟨_, _, rfl⟩
  obtain ⟨bytesWritten, es', rfl⟩ := hfirst
  intro a b heq
  cases a with
  | nil => simp at heq
  | cons e a =>
    obtain ⟨rfl, -⟩ := List.cons.inj heq
    exact .inl ⟨bytesWritten, List.mem_cons_self⟩

theorem Job.reported_no_can (job : Job υ) (offset : Nat) : .read (some can) ∉ job.reported offset := by
  unfold Job.reported
  split <;> simp

theorem Transfer.canStops {blockNum : UInt8} {offset : Nat}
    (h : Transfer job blockNum offset cs es r) : CanStops r es := by
  induction h with
  | refused => exact canStops_none List.not_mem_nil
  | stopped h => exact h.canStops
  | next h _ ih =>
    refine ih.prepend ?_
    rw [List.mem_append, not_or]
    exact ⟨h.no_can, job.reported_no_can _⟩
  | ended h => exact h.canStops

theorem startAnswer_none {byte : Option UInt8} (h : startAnswer byte = none) : byte ≠ some can := by
  rintro rfl
  cases h

theorem startAnswer_can {byte : Option UInt8} (h : startAnswer byte = some r) :
    CanStops r [.read byte] := by
  by_cases hbyte : byte = some can
  · subst hbyte
    cases h
    exact canStops_can
  · exact canStops_none (by simpa using Ne.symm hbyte)

/-! ## The end -/

theorem EotAcked.prepend (h : EotAcked es) (es' : List Event) : EotAcked (es' ++ es) := by
  obtain ⟨a, b, rfl⟩ := h
  exact ⟨es' ++ a, b, by simp⟩

theorem Ended.eotAcked (h : Ended es 0) : EotAcked es := by
  cases h with
  | @acked bytes => exact ⟨[], bytes.map .read, rfl⟩

theorem Transfer.eotAcked {blockNum : UInt8} {offset : Nat}
    (h : Transfer job blockNum offset cs es r) (hr : r = 0) : EotAcked es := by
  induction h with
  | refused => cases hr
  | stopped _ hres => exact absurd hr hres
  | next _ _ ih => exact (ih hr).prepend _
  | ended h =>
    subst hr
    exact h.eotAcked

/-! ## A call -/

section
variable (h : Call job cs es r)
include h

theorem Call.inOrder : InOrder (packets job.cfg.blockSize 1 cs) es := by
  have hquiet : ∀ {es : List Event}, (∀ e ∈ es, e.isWrite = false) →
      InOrder (packets job.cfg.blockSize 1 cs) es := by
    intro es hes
    have hnil : ∀ ps, InOrder ps [] := by
      rintro (- | ⟨p, ps⟩)
      · exact .ending ⟨nofun, Nat.zero_le _⟩
      · exact .trying ⟨nofun, Nat.zero_le _⟩
    have := (hnil (packets job.cfg.blockSize 1 cs)).prepend hes
    rwa [List.append_nil] at this
  cases h with
  | idle => exact hquiet nofun
  | @expired ignored => exact hquiet (map_read_isWrite ignored)
  | @declined ignored byte =>
    have := hquiet (map_read_isWrite (ignored ++ [byte]))
    rwa [List.map_append] at this
  | @started ignored _ _ _ h =>
    have := h.inOrder.prepend (map_read_isWrite (ignored ++ [some cchr]))
    rwa [List.map_append] at this

theorem Call.canStops : CanStops r es := by
  have hno : ∀ {ignored : List (Option UInt8)}, (∀ byte ∈ ignored, startAnswer byte = none) →
      .read (some can) ∉ ignored.map Event.read := by
    intro ignored hignored hmem
    obtain ⟨byte, hbyte, heq⟩ := List.mem_map.1 hmem
    exact startAnswer_none (hignored byte hbyte) (Event.read.inj heq)
  cases h with
  | idle => exact canStops_none List.not_mem_nil
  | expired hignored => exact canStops_none (hno hignored)
  | declined hignored hanswer => exact (startAnswer_can hanswer).prepend (hno hignored)
  | started hignored h =>
    refine h.canStops.prepend ?_
    rw [List.mem_append, not_or]
    exact ⟨hno hignored, by decide⟩

theorem Call.eotAcked (hr : r = 0) : EotAcked es := by
  cases h with
  | idle => cases hr
  | expired => cases hr
  | declined _ _ hres => exact absurd hr hres
  | started _ h => exact (h.eotAcked hr).prepend _

end

/-- **The order of what a call sends**, so far and to its end. -/
theorem uCxXmodemSend_ordered {job : Job υ} {user : υ} {blockBuffer : List UInt8} {io io' : Port}
    {r : Int} (h : uCxXmodemSend job user blockBuffer io = some (r, io')) :
    ∃ es, io'.uart.trace = io.uart.trace ++ es ∧
      (∀ es', es' <+: es → InOrder (packets job.cfg.blockSize 1
        (job.chunks (job.dataLen + 1) user blockBuffer 0)) es') ∧
      CanStops r es ∧ (r = 0 → EotAcked es) := by
  obtain ⟨es, htr, hcall⟩ := uCxXmodemSend_call h
  exact ⟨es, htr, fun _ hpre => hcall.inOrder.of_prefix hpre, hcall.canStops, hcall.eotAcked⟩

theorem uCxXmodemSend_ordered_short :
    ∃ es, shortTrace = [] ++ es ∧
      (∀ es', es' <+: es → InOrder (packets shortJob.cfg.blockSize 1
        (shortJob.chunks (shortJob.dataLen + 1) () [] 0)) es') ∧
      CanStops 0 es ∧ EotAcked es := by
  obtain ⟨es, htr, horder, hcan, hack⟩ := uCxXmodemSend_ordered shortJob_sent
  exact ⟨es, htr, horder, hcan, hack rfl⟩

end Xmodem
