import Mathlib.Data.List.Basic
import UcxClient.Lib.Ascii
import UcxClient.Xmodem.Link

/-!
# Agreement between sender and receiver

While the sender waits for the answer to a block, the line holds copies of the block before and then
copies of this block, as packets or as the ACKs sent for them (`During`); after an ACK that was sent for
the block there are only copies of the block left, and the receiver has stored it (`Settled`). So a transfer that
returns 0 has delivered every block if no ACK was read for another block than the one it was sent for
(`agreement`). The sender cannot tell: it neither empties its input nor do ACKs carry a number, and an
ACK for a repeated block is taken for the next block (`stale_ack`).
-/

open ByteMem Blocks Transition

universe u

namespace Xmodem

namespace Link

/-- The packets that the responses acknowledge. -/
def acks (rs : List Response) : List (List UInt8) :=
  rs.filterMap fun r => if r.byte = ack then r.answers else none

/-- The ACKs on the line and behind them the packets. -/
def pipe (l : Link) : List (List UInt8) := acks l.toSender ++ l.toReceiver.filterMap id

/-- Only packets in `S` are on the line, and the receiver is `rx`. -/
structure Settled (S : List UInt8 → Prop) (rx : Receiver) (l : Link) : Prop where
  mem : ∀ p ∈ l.pipe, S p
  rx : l.rx = rx

/-- Copies of `prev` and behind them copies of `cur` are on the line, and the receiver has taken `cur`
if it has sent an ACK for it. -/
structure During (prev : Option (List UInt8)) (cur : List UInt8) (rx₀ rx₁ : Receiver) (l : Link) :
    Prop where
  mem : ∀ p ∈ l.pipe, p = cur ∨ prev = some p
  order : l.pipe.Pairwise fun p q => p = cur → q = cur
  rx : l.rx = rx₀ ∧ cur ∉ acks l.toSender ∨ l.rx = rx₁

/-- `cur` is the block after `prev`, which takes the receiver from `rx₀` to `rx₁`. -/
structure Next (prev : Option (List UInt8)) (cur : List UInt8) (rx₀ rx₁ : Receiver) : Prop where
  ne : prev ≠ some cur
  ne_eot : cur ≠ [eot]
  again : ∀ p, prev = some p → rx₀.receive (frame p) = (rx₀, some ack)
  taken : rx₀.receive (frame cur) = (rx₁, some ack)
  repeated : rx₁.receive (frame cur) = (rx₁, some ack)
  late : ∀ p, prev = some p → rx₁.receive (frame p) = (rx₁, none)

/-! ## The line -/

@[simp] theorem acks_append (rs rs' : List Response) : acks (rs ++ rs') = acks rs ++ acks rs' :=
  List.filterMap_append ..

@[simp] theorem acks_ack (p : List UInt8) : acks [⟨ack, some p⟩] = [p] := rfl

@[simp] theorem acks_nak (answers : Option (List UInt8)) : acks [⟨nak, answers⟩] = [] := rfl

@[simp] theorem acks_cchr (answers : Option (List UInt8)) : acks [⟨cchr, answers⟩] = [] := rfl

theorem acks_sublist (r : Response) (rs : List Response) : (acks rs).Sublist (acks (r :: rs)) :=
  (List.sublist_cons_self r rs).filterMap _

variable {prev : Option (List UInt8)} {cur : List UInt8} {rx₀ rx₁ rx : Receiver} {l l' : Link}

/-- A write adds nothing but copies of the packet. -/
theorem take_pipe {pData : List UInt8} {n : Int} {arrival : Arrival}
    {ps : List (Option (List UInt8))} (h : take pData n arrival = some ps) :
    ∀ p ∈ ps.filterMap id, p = pData := by
  cases arrival with
  | intact =>
    simp only [take] at h
    split at h
    · cases h
      simp
    · cases h
  | corrupted =>
    cases h
    simp
  | nothing =>
    simp only [take] at h
    split at h
    · cases h
    · cases h
      simp

/-- A read takes a response from the line. -/
theorem step_read {byte : Option UInt8} {arrival : Arrival}
    (h : l.step (.sender (.read byte) arrival) = some l') :
    l' = l ∨ ∃ r, l.toSender = r :: l'.toSender ∧ byte = some r.byte ∧
      l' = { l with toSender := l'.toSender } := by
  cases byte with
  | none =>
    cases h
    exact .inl rfl
  | some b =>
    simp only [step] at h
    split at h
    · cases h
    · next r toSender heq =>
      split at h
      · next hb =>
        cases h
        exact .inr ⟨r, heq, by rw [hb], rfl⟩
      · cases h

theorem pipe_read {r : Response} (h : l.toSender = r :: l'.toSender)
    (hl' : l' = { l with toSender := l'.toSender }) : l'.pipe.Sublist l.pipe := by
  have hrx : l'.toReceiver = l.toReceiver := by
    rw [hl']
  rw [pipe, pipe, h, hrx]
  exact (acks_sublist r _).append (List.Sublist.refl _)

/-! ## The receiver's steps -/

/-- A corrupted frame leads to a NAK. -/
theorem deliver_corrupted {rest : List (Option (List UInt8))} (h : l.toReceiver = none :: rest)
    (hs : l.step .deliver = some l') :
    l'.pipe = l.pipe ∧ acks l'.toSender = acks l.toSender ∧ l'.rx = l.rx := by
  simp only [step, h] at hs
  cases hs
  simp [pipe, h, Receiver.receive]

/-- A packet that is acknowledged stays in the pipe. -/
theorem deliver_acked {p : List UInt8} {rest : List (Option (List UInt8))}
    (h : l.toReceiver = some p :: rest) (hrec : l.rx.receive (frame p) = (rx, some ack))
    (hs : l.step .deliver = some l') :
    l'.pipe = l.pipe ∧ acks l'.toSender = acks l.toSender ++ [p] ∧ l'.rx = rx := by
  simp only [step, h, Option.map_some, Option.getD_some, hrec] at hs
  cases hs
  simp [pipe, h]

/-- A packet without an answer leaves it. -/
theorem deliver_ignored {p : List UInt8} {rest : List (Option (List UInt8))}
    (h : l.toReceiver = some p :: rest) (hrec : l.rx.receive (frame p) = (rx, none))
    (hs : l.step .deliver = some l') :
    l'.pipe.Sublist l.pipe ∧ acks l'.toSender = acks l.toSender ∧ l'.rx = rx := by
  simp only [step, h, Option.map_some, Option.getD_some, hrec] at hs
  cases hs
  simp [pipe, h]

theorem mem_pipe_of_toReceiver {p : List UInt8} (h : some p ∈ l.toReceiver) : p ∈ l.pipe :=
  List.mem_append_right _ (List.mem_filterMap.2 ⟨some p, h, rfl⟩)

/-- A response that is no ACK does not count. -/
theorem pipe_other {r : Response} (hr : r.byte ≠ ack) :
    acks (l.toSender ++ [r]) = acks l.toSender := by
  simp [acks, hr]

/-! ## Between two blocks -/

theorem Settled.during (h : Settled (prev = some ·) rx₀ l) (hn : Next prev cur rx₀ rx₁) :
    During prev cur rx₀ rx₁ l := by
  have hne : ∀ p ∈ l.pipe, p ≠ cur := fun p hp heq => hn.ne (heq ▸ h.mem p hp)
  exact {
    mem := fun p hp => .inr (h.mem p hp)
    order := List.pairwise_of_forall_mem_list fun p hp _ _ heq => absurd heq (hne p hp)
    rx := .inl ⟨h.rx, fun hc => hne cur (List.mem_append_left _ hc) rfl⟩ }

/-! ## During a block -/

theorem During.sublist (h : During prev cur rx₀ rx₁ l) (hp : l'.pipe.Sublist l.pipe)
    (hrx : l'.rx = rx₀ ∧ cur ∉ acks l'.toSender ∨ l'.rx = rx₁) : During prev cur rx₀ rx₁ l' where
  mem := fun p hmem => h.mem p (hp.subset hmem)
  order := h.order.sublist hp
  rx := hrx

/-- What the receiver takes is a copy of one of the two blocks. -/
theorem During.deliver (hn : Next prev cur rx₀ rx₁) (h : During prev cur rx₀ rx₁ l)
    (hs : l.step .deliver = some l') : During prev cur rx₀ rx₁ l' := by
  rcases hq : l.toReceiver with - | ⟨- | p, rest⟩
  · simp [step, hq] at hs
  · obtain ⟨hp, ha, hr⟩ := deliver_corrupted hq hs
    exact h.sublist (hp ▸ List.Sublist.refl _) (by rw [ha, hr]; exact h.rx)
  · have hmem := h.mem p (mem_pipe_of_toReceiver (hq ▸ List.mem_cons_self))
    rcases h.rx with ⟨hrx, hcur⟩ | hrx
    · rcases hmem with rfl | hprev
      · obtain ⟨hp, -, hr⟩ := deliver_acked hq (by rw [hrx]; exact hn.taken) hs
        exact h.sublist (hp ▸ List.Sublist.refl _) (.inr hr)
      · obtain ⟨hp, ha, hr⟩ := deliver_acked hq (by rw [hrx]; exact hn.again p hprev) hs
        refine h.sublist (hp ▸ List.Sublist.refl _) (.inl ⟨hr, ?_⟩)
        have hne : p ≠ cur := fun heq => hn.ne (heq ▸ hprev)
        simpa [ha, hcur] using hne.symm
    · rcases hmem with rfl | hprev
      · obtain ⟨hp, -, hr⟩ := deliver_acked hq (by rw [hrx]; exact hn.repeated) hs
        exact h.sublist (hp ▸ List.Sublist.refl _) (.inr hr)
      · obtain ⟨hp, -, hr⟩ := deliver_ignored hq (by rw [hrx]; exact hn.late p hprev) hs
        exact h.sublist hp (.inr hr)

theorem During.write (h : During prev cur rx₀ rx₁ l) {n : Int} {arrival : Arrival}
    (hs : l.step (.sender (.wrote cur n) arrival) = some l') :
    During prev cur rx₀ rx₁ l' ∧ l'.written = cur := by
  obtain ⟨ps, hps, rfl⟩ := Option.map_eq_some_iff.1 hs
  have hpipe : ∃ ps', (∀ p ∈ ps', p = cur) ∧
      pipe { l with toReceiver := l.toReceiver ++ ps, written := cur } = l.pipe ++ ps' := by
    exact ⟨ps.filterMap id, take_pipe hps, by simp [pipe]⟩
  obtain ⟨ps', hcur, hpipe⟩ := hpipe
  refine ⟨⟨?_, ?_, h.rx⟩, rfl⟩
  · intro p hp
    rw [hpipe] at hp
    rcases List.mem_append.1 hp with hp | hp
    · exact h.mem p hp
    · exact .inl (hcur p hp)
  · rw [hpipe, List.pairwise_append]
    exact ⟨h.order, List.pairwise_of_forall_mem_list fun p _ q hq _ => hcur q hq,
      fun p _ q hq _ => hcur q hq⟩

theorem During.read (h : During prev cur rx₀ rx₁ l) {byte : Option UInt8} {arrival : Arrival}
    (hs : l.step (.sender (.read byte) arrival) = some l') :
    During prev cur rx₀ rx₁ l' ∧ l'.written = l.written := by
  rcases step_read hs with rfl | ⟨r, hr, -, hl'⟩
  · exact ⟨h, rfl⟩
  · have hrx : l'.rx = l.rx := by rw [hl']
    refine ⟨h.sublist (pipe_read hr hl') ?_, by rw [hl']⟩
    rw [hrx]
    refine h.rx.imp_left fun hx => ⟨hx.1, fun hc => hx.2 ?_⟩
    rw [hr]
    exact (acks_sublist r _).subset hc

/-- The receiver's timer and its start signal. -/
theorem During.unasked (h : During prev cur rx₀ rx₁ l) {r : Response} (hr : r.byte ≠ ack) :
    During prev cur rx₀ rx₁ { l with toSender := l.toSender ++ [r] } := by
  have hacks := pipe_other (l := l) hr
  have hpipe : pipe { l with toSender := l.toSender ++ [r] } = l.pipe := by simp only [pipe, hacks]
  refine h.sublist (hpipe ▸ List.Sublist.refl _) ?_
  simp only [hacks]
  exact h.rx

/-- **Every step until the ACK.** -/
theorem During.step (hn : Next prev cur rx₀ rx₁) (h : During prev cur rx₀ rx₁ l) {a : Action}
    (ha : ∀ e, a.event = some e → e.Pending cur) (hs : l.step a = some l') :
    During prev cur rx₀ rx₁ l' ∧ (l.written = cur → l'.written = cur) ∧
      (∀ n, a.event = some (.wrote cur n) → l'.written = cur) := by
  cases a with
  | deliver =>
    have hw : l'.written = l.written := by
      rcases hq : l.toReceiver with - | ⟨p, rest⟩
      · simp [Link.step, hq] at hs
      · simp only [Link.step, hq] at hs
        cases hs
        rfl
    exact ⟨h.deliver hn hs, fun h => hw.trans h, nofun⟩
  | expire =>
    cases hs
    exact ⟨h.unasked (by decide), id, nofun⟩
  | ready =>
    cases hs
    exact ⟨h.unasked (by decide), id, nofun⟩
  | sender e arrival =>
    cases e with
    | wrote pData n =>
      obtain rfl : pData = cur := ha _ rfl
      obtain ⟨h1, h2⟩ := h.write hs
      exact ⟨h1, fun _ => h2, fun _ _ => h2⟩
    | read byte =>
      obtain ⟨h1, h2⟩ := h.read hs
      exact ⟨h1, fun h => h2.trans h, nofun⟩
    | progress total sent pUserData =>
      cases hs
      exact ⟨h, id, nofun⟩

/-- **The ACK for the block.** -/
theorem During.acked (hn : Next prev cur rx₀ rx₁) (h : During prev cur rx₀ rx₁ l)
    (hw : l.written = cur) {arrival : Arrival}
    (hin : l.inTime (.sender (.read (some ack)) arrival) = true)
    (hs : l.step (.sender (.read (some ack)) arrival) = some l') : Settled (some cur = some ·) rx₁ l' := by
  rcases hq : l.toSender with - | ⟨r, rs⟩
  · simp [Link.step, hq] at hs
  · have hans : r.answers = some cur := by
      simpa [inTime, hq, hw, hn.ne_eot] using hin
    simp only [Link.step, hq] at hs
    split at hs
    · next hb =>
      cases hs
      have hpipe : l.pipe = cur :: pipe { l with toSender := rs } := by
        simp [pipe, acks, hq, hb, hans]
      have horder := h.order
      rw [hpipe, List.pairwise_cons] at horder
      refine ⟨fun p hp => by simp only [horder.1 p hp rfl], ?_⟩
      rcases h.rx with ⟨-, hcur⟩ | hrx
      · exact absurd (by simp [acks, hq, hb, hans]) hcur
      · exact hrx
    · cases hs

/-! ## Before the first block and after the last -/

variable {S S' : List UInt8 → Prop}

theorem Settled.mono (h : Settled S rx l) (hS : ∀ p, S p → S' p) : Settled S' rx l :=
  ⟨fun p hp => hS p (h.mem p hp), h.rx⟩

/-- A receiver that acknowledges what is on the line stays as it is. -/
theorem Settled.step (hS : ∀ p, S p → rx.receive (frame p) = (rx, some ack)) (h : Settled S rx l)
    {a : Action} (ha : ∀ p n, a.event = some (.wrote p n) → S p) (hs : l.step a = some l') :
    Settled S rx l' := by
  cases a with
  | deliver =>
    rcases hq : l.toReceiver with - | ⟨- | p, rest⟩
    · simp [Link.step, hq] at hs
    · obtain ⟨hp, -, hr⟩ := deliver_corrupted hq hs
      exact ⟨by rw [hp]; exact h.mem, hr.trans h.rx⟩
    · have hmem := h.mem p (mem_pipe_of_toReceiver (hq ▸ List.mem_cons_self))
      obtain ⟨hp, -, hr⟩ := deliver_acked hq (by rw [h.rx]; exact hS p hmem) hs
      exact ⟨by rw [hp]; exact h.mem, hr⟩
  | expire =>
    cases hs
    exact ⟨by rw [pipe, pipe_other (by decide)]; exact h.mem, h.rx⟩
  | ready =>
    cases hs
    exact ⟨by rw [pipe, pipe_other (by decide)]; exact h.mem, h.rx⟩
  | sender e arrival =>
    cases e with
    | wrote pData n =>
      obtain ⟨ps, hps, rfl⟩ := Option.map_eq_some_iff.1 hs
      refine ⟨fun p hp => ?_, h.rx⟩
      simp only [pipe, List.filterMap_append, ← List.append_assoc] at hp
      rcases List.mem_append.1 hp with hp | hp
      · exact h.mem p hp
      · rw [take_pipe hps p hp]
        exact ha pData n rfl
    | read byte =>
      rcases step_read hs with rfl | ⟨r, hr, -, hl'⟩
      · exact h
      · have hrx : l'.rx = l.rx := by rw [hl']
        exact ⟨fun p hp => h.mem p ((pipe_read hr hl').subset hp), hrx.trans h.rx⟩
    | progress total sent pUserData =>
      cases hs
      exact h

/-! ## Runs -/

theorem Settled.run (hS : ∀ p, S p → rx.receive (frame p) = (rx, some ack)) {actions : List Action}
    (h : Settled S rx l) (hev : ∀ p n, .wrote p n ∈ actions.filterMap Action.event → S p)
    (hrun : runIf inTime Link.step l actions = some l') : Settled S rx l' := by
  induction actions generalizing l with
  | nil =>
    cases hrun
    exact h
  | cons a actions ih =>
    obtain ⟨-, l1, h1, h2⟩ := runIf_cons.1 hrun
    refine ih (h.step hS (fun p n hpn => hev p n ?_) h1) (fun p n hpn => hev p n ?_) h2
    · exact List.mem_filterMap.2 ⟨a, List.mem_cons_self, hpn⟩
    · obtain ⟨b, hb, hbe⟩ := List.mem_filterMap.1 hpn
      exact List.mem_filterMap.2 ⟨b, List.mem_cons_of_mem _ hb, hbe⟩

theorem During.run (hn : Next prev cur rx₀ rx₁) {actions : List Action}
    (h : During prev cur rx₀ rx₁ l) (hev : ∀ e ∈ actions.filterMap Action.event, e.Pending cur)
    (hrun : runIf inTime Link.step l actions = some l') :
    During prev cur rx₀ rx₁ l' ∧ (l.written = cur → l'.written = cur) ∧
      ∀ n, .wrote cur n ∈ actions.filterMap Action.event → l'.written = cur := by
  induction actions generalizing l with
  | nil =>
    cases hrun
    exact ⟨h, id, nofun⟩
  | cons a actions ih =>
    obtain ⟨-, l1, h1, h2⟩ := runIf_cons.1 hrun
    have hhere : ∀ e, a.event = some e → e.Pending cur := fun e he =>
      hev e (List.mem_filterMap.2 ⟨a, List.mem_cons_self, he⟩)
    have hrest : ∀ e ∈ actions.filterMap Action.event, e.Pending cur := fun e he => by
      obtain ⟨b, hb, hbe⟩ := List.mem_filterMap.1 he
      exact hev e (List.mem_filterMap.2 ⟨b, List.mem_cons_of_mem _ hb, hbe⟩)
    obtain ⟨hd, hkeep, hwrote⟩ := h.step hn hhere h1
    obtain ⟨hd', hkeep', hwrote'⟩ := ih hd hrest h2
    refine ⟨hd', fun hw => hkeep' (hkeep hw), fun n hmem => ?_⟩
    obtain ⟨b, hb, hbe⟩ := List.mem_filterMap.1 hmem
    rcases List.mem_cons.1 hb with rfl | hb
    · exact hkeep' (hwrote n hbe)
    · exact hwrote' n (List.mem_filterMap.2 ⟨b, hb, hbe⟩)

/-- **A block.** -/
theorem Settled.acked (hn : Next prev cur rx₀ rx₁) {actions : List Action}
    (h : Settled (prev = some ·) rx₀ l) (hev : Acked cur (actions.filterMap Action.event))
    (hrun : runIf inTime Link.step l actions = some l') : Settled (some cur = some ·) rx₁ l' := by
  obtain ⟨pre, hpre, hpend, hw⟩ := hev
  obtain ⟨as, rest, rfl, has, hrest⟩ := List.filterMap_eq_append_iff.1 hpre
  obtain ⟨quiet, a, rest', rfl, hquiet, ha, hrest'⟩ := List.filterMap_eq_cons_iff.1 hrest
  obtain ⟨l1, h1, hrun⟩ := runIf_append.1 hrun
  obtain ⟨l2, h2, hrun⟩ := runIf_append.1 hrun
  obtain ⟨hin, l3, h3, h4⟩ := runIf_cons.1 hrun
  -- up to the ACK, with nothing but steps of the receiver right before it
  obtain ⟨hd1, -, hwrote⟩ := (h.during hn).run hn (by rw [has]; exact hpend) h1
  have hsilent : quiet.filterMap Action.event = [] := List.filterMap_eq_nil_iff.2 hquiet
  obtain ⟨hd2, hkeep, -⟩ := hd1.run hn (by rw [hsilent]; nofun) h2
  have hwritten := hkeep (hwrote _ (by rw [has]; exact hw))
  obtain ⟨arrival, rfl⟩ : ∃ arrival, a = .sender (.read (some ack)) arrival := by
    cases a with
    | sender e arrival =>
      cases ha
      exact ⟨arrival, rfl⟩
    | deliver | expire | ready => cases ha
  have hset := hd2.acked hn hwritten hin h3
  refine hset.run (fun p hp => ?_) (by rw [hrest']; nofun) h4
  cases hp
  exact hn.repeated

end Link

open Link

/-! ## The blocks -/

/-- The receiver that has taken these blocks. -/
def rxOf (blockSize : Nat) (taken : List (List UInt8)) : Receiver :=
  ⟨UInt8.ofNat taken.length + 1, taken.map (padBlock blockSize)⟩

/-- The packet of the last block taken. -/
def prevOf (blockSize : Nat) (taken : List (List UInt8)) : Option (List UInt8) :=
  taken.getLast?.map fun c => blockPacket (UInt8.ofNat taken.length) c blockSize

theorem ne_next (k : UInt8) : k ≠ k + 1 := by
  revert k
  exact forall_byte (by decide +kernel)

theorem ne_next_next (k : UInt8) : k ≠ k + 1 + 1 := by
  revert k
  exact forall_byte (by decide +kernel)

theorem next_block (cfg : Config) (taken : List (List UInt8)) (c : List UInt8) :
    Next (prevOf cfg.blockSize taken)
      (blockPacket (UInt8.ofNat taken.length + 1) c cfg.blockSize)
      (rxOf cfg.blockSize taken) (rxOf cfg.blockSize (taken ++ [c])) := by
  have h1 := ne_next (UInt8.ofNat taken.length)
  have h2 := ne_next (UInt8.ofNat taken.length + 1)
  have h3 := ne_next_next (UInt8.ofNat taken.length)
  have hprev : ∀ p, prevOf cfg.blockSize taken = some p → taken ≠ [] ∧
      ∃ c, p = blockPacket (UInt8.ofNat taken.length) c cfg.blockSize := by
    intro p hp
    obtain ⟨c, hc, rfl⟩ := Option.map_eq_some_iff.1 hp
    refine ⟨?_, c, rfl⟩
    rintro rfl
    cases hc
  exact {
    ne := fun heq => by
      obtain ⟨-, c', hc'⟩ := hprev _ heq
      exact h1 (congrArg number hc').symm
    ne_eot := blockPacket_ne_eot (UInt8.ofNat taken.length + 1) c cfg.blockSize
    again := fun p hp => by
      obtain ⟨hne, c', rfl⟩ := hprev p hp
      simp [frame_blockPacket, Receiver.receive, rxOf, h1, hne]
    taken := by simp [frame_blockPacket, Receiver.receive, rxOf]
    repeated := by simp [frame_blockPacket, Receiver.receive, rxOf, h2]
    late := fun p hp => by
      obtain ⟨-, c', rfl⟩ := hprev p hp
      simp [frame_blockPacket, Receiver.receive, rxOf, h3] }

theorem prevOf_append (blockSize : Nat) (taken : List (List UInt8)) (c : List UInt8) :
    prevOf blockSize (taken ++ [c]) =
      some (blockPacket (UInt8.ofNat taken.length + 1) c blockSize) := by
  simp [prevOf]

theorem blocks_stored (cfg : Config) (taken : List (List UInt8)) {cs : List (List UInt8)}
    {es : List Event}
    (hes : AckedAll (packets cfg.blockSize (UInt8.ofNat taken.length + 1) cs ++ [[eot]]) es)
    {l l' : Link} (h : Settled (prevOf cfg.blockSize taken = some ·) (rxOf cfg.blockSize taken) l)
    {actions : List Action} (hev : actions.filterMap Action.event = es)
    (hrun : runIf inTime Link.step l actions = some l') :
    l'.rx = rxOf cfg.blockSize (taken ++ cs) := by
  induction cs generalizing taken es l actions with
  | nil =>
    rw [packets, List.nil_append] at hes
    obtain - | @⟨-, -, es₁, es₂, ⟨pre, rfl, hpre, -⟩, hnil⟩ := hes
    cases hnil
    have hS : ∀ p, prevOf cfg.blockSize taken = some p ∨ p = [eot] →
        (rxOf cfg.blockSize taken).receive (frame p) = (rxOf cfg.blockSize taken, some ack) := by
      rintro p (hp | rfl)
      · exact (next_block cfg taken []).again p hp
      · rfl
    have hwrites : ∀ p n, .wrote p n ∈ actions.filterMap Action.event →
        prevOf cfg.blockSize taken = some p ∨ p = [eot] := by
      intro p n hmem
      rw [hev, List.append_nil] at hmem
      rcases List.mem_append.1 hmem with hmem | hmem
      · exact .inr (hpre _ hmem)
      · cases List.mem_singleton.1 hmem
    have hend := (h.mono fun p hp => .inl hp).run hS hwrites hrun
    rw [hend.rx, List.append_nil]
  | cons c cs ih =>
    rw [packets, List.cons_append] at hes
    obtain - | @⟨-, -, es₁, es₂, hacked, hrest⟩ := hes
    obtain ⟨as, bs, rfl, has, hbs⟩ := List.filterMap_eq_append_iff.1 hev
    obtain ⟨l1, h1, h2⟩ := runIf_append.1 hrun
    have hset := h.acked (next_block cfg taken c) (has ▸ hacked) h1
    rw [← prevOf_append] at hset
    have hnum : UInt8.ofNat (taken ++ [c]).length + 1 = UInt8.ofNat taken.length + 1 + 1 := by simp
    rw [ih (taken ++ [c]) (by rw [hnum]; exact hrest) hset hbs h2, List.append_assoc]
    rfl

/-! ## The transfer -/

variable {υ : Type u}

/-- The data callback always fills the request. -/
def Job.Fills (job : Job υ) (data : List UInt8) : Prop :=
  ∀ user blockBuffer offset maxLen, 0 < maxLen → offset + maxLen ≤ data.length →
    let a := job.dataCallback job.pUserData user blockBuffer offset maxLen
    a.bytesRead = maxLen ∧ a.blockBuffer.take maxLen = (data.drop offset).take maxLen

theorem Job.Fills.chunks {job : Job υ} {data : List UInt8} (h : job.Fills data)
    (hlen : job.dataLen = data.length) {n : Nat} {user : υ} {blockBuffer : List UInt8} {offset : Nat}
    (hn : job.dataLen - offset < n) :
    job.chunks n user blockBuffer offset = cut job.cfg.blockSize (data.drop offset) := by
  have hbs := job.cfg.blockSize_pos
  induction n generalizing user blockBuffer offset with
  | zero => exact absurd hn (by omega)
  | succ n ih =>
    simp only [Job.chunks]
    split
    · next hlt =>
      have hreq := job.requestLen_eq offset
      obtain ⟨hret, htake⟩ := h user blockBuffer offset (job.requestLen offset) (by omega) (by omega)
      have hne : data.drop offset ≠ [] := fun hnil => by
        have := congrArg List.length hnil
        simp only [List.length_drop, List.length_nil] at this
        omega
      have htk : (data.drop offset).take (job.requestLen offset) =
          (data.drop offset).take job.cfg.blockSize := by
        rw [List.take_eq_take_iff, List.length_drop]
        omega
      have hdr : data.drop (offset + job.requestLen offset) =
          (data.drop offset).drop job.cfg.blockSize := by
        rw [List.drop_drop]
        by_cases hshort : job.dataLen - offset ≤ job.cfg.blockSize
        · rw [List.drop_eq_nil_of_le (by omega), List.drop_eq_nil_of_le (by omega)]
        · congr 1
          omega
      rw [cut_cons hbs hne, Job.request, hret, Int.toNat_natCast, htake, htk, ih (by omega), hdr]
    · rw [List.drop_eq_nil_of_le (by omega), cut_nil hbs]

/-- The blocks of the data. -/
def dataBlocks (blockSize : Nat) (data : List UInt8) : List (List UInt8) :=
  (cut blockSize data).map (pad blockSize padding)

/-- **Agreement.** -/
theorem agreement {job : Job υ} {data : List UInt8} (hfills : job.Fills data)
    (hlen : job.dataLen = data.length) {user : υ} {blockBuffer : List UInt8} {io io' : Port}
    (htr : io.uart.trace = []) (h : uCxXmodemSend job user blockBuffer io = some (0, io'))
    {actions : List Action} (hev : actions.filterMap Action.event = io'.uart.trace) {l : Link}
    (hrun : runIf inTime Link.step .init actions = some l) :
    l.rx.stored = dataBlocks job.cfg.blockSize data := by
  obtain ⟨bytes, es, htrace, hes⟩ := uCxXmodemSend_trace h
  rw [hfills.chunks hlen (by omega), List.drop_zero] at hes
  rw [htrace, htr, List.nil_append] at hev
  obtain ⟨as, bs, rfl, has, hbs⟩ := List.filterMap_eq_append_iff.1 hev
  obtain ⟨l1, h1, h2⟩ := runIf_append.1 hrun
  have hstart : Settled (prevOf job.cfg.blockSize [] = some ·) (rxOf job.cfg.blockSize []) .init :=
    ⟨nofun, rfl⟩
  have hset := hstart.run (fun p hp => by cases hp) (fun p n hmem => by simp [has] at hmem) h1
  have hend := blocks_stored job.cfg [] hes hset hbs h2
  rw [hend, rxOf, dataBlocks, List.nil_append]
  exact List.map_congr_left fun c hc => padBlock_eq (length_le_of_mem_cut hc)

/-! ## Runs -/

/-- A transfer in 128 byte blocks of `n` bytes that the data callback has at hand. -/
def fullJob (n : Nat) : Job Unit where
  cfg := { use1K := false, timeoutMs := 15000, opened := true }
  dataLen := n
  dataCallback := fun _ user _ offset maxLen =>
    ⟨maxLen, ((List.replicate n 0x41).drop offset).take maxLen, user⟩
  progressCallback := false
  pUserData := 0

theorem fullJob_fills (n : Nat) : (fullJob n).Fills (List.replicate n 0x41) :=
  fun _ _ _ _ _ _ => ⟨rfl, List.take_take.trans (by rw [Nat.min_self])⟩

/-- A packet that is acknowledged at once. -/
def promptActions (p : List UInt8) : List Action :=
  [.ready, .sender (.read (some cchr)) .intact, .sender (.wrote p 133) .intact, .deliver,
    .sender (.read (some ack)) .intact, .sender (.wrote [eot] 1) .intact, .deliver,
    .sender (.read (some ack)) .intact]

def promptPort : Port := ⟨⟨[some cchr, some ack, some ack], [133, 1], []⟩, [0, 0, 0, 0, 0, 0]⟩

theorem fullJob_prompt : uCxXmodemSend (fullJob 1) () [] promptPort = some (0,
    ⟨⟨[], [], (promptActions (blockPacket 1 [0x41] 128)).filterMap Action.event⟩, []⟩) := by
  have hlen := length_blockPacket
  have h0 : toInt32 0 = 0 := rfl
  simp [uCxXmodemSend, fullJob, promptPort, xmodemWaitForStart, Port.getTimeMs, startLoop, Uart.read,
    h0, startTimeoutMs, sendLoop, Job.request, Job.requestLen, xmodemSendBlock, Config.blockSize,
    blockSize128, maxRetries, retryLoop, Uart.write, hlen, responseLoop, Job.report, Job.pauseBefore,
    blockSize1K, xmodemSendEot, eotLoop]
  rfl

theorem frame_eot : frame [eot] = .eot := rfl

theorem promptActions_run {p d : List UInt8} (hp : frame p = .block 1 d) (hlen : p.length = 133) :
    runIf inTime Link.step .init (promptActions p) = some ⟨⟨2, [d]⟩, [], [], [eot]⟩ := by
  have hcchr : cchr ≠ ack := by decide
  simp [runIf, run, promptActions, Link.step, Link.take, inTime, Link.init, Receiver.init,
    Receiver.receive, hcchr, hlen, hp, frame_eot]

theorem agreement_prompt :
    [padBlock 128 [0x41]] = dataBlocks (fullJob 1).cfg.blockSize [0x41] := by
  have hframe := frame_blockPacket (fullJob 1).cfg 1 [0x41]
  have h := agreement (fullJob_fills 1) rfl rfl fullJob_prompt rfl
    (promptActions_run hframe (length_blockPacket 1 [0x41] 128))
  exact h

/-- A NAK of the receive timer makes the sender repeat block 1, and the ACK for the copy ends the wait
for block 2, which arrives corrupted. -/
def staleActions (p q : List UInt8) : List Action :=
  [.ready, .sender (.read (some cchr)) .intact, .sender (.wrote p 133) .intact, .expire,
    .sender (.read (some nak)) .intact, .sender (.wrote p 133) .intact, .deliver, .deliver,
    .sender (.read (some ack)) .intact, .sender (.wrote q 133) .corrupted,
    .sender (.read (some ack)) .intact, .sender (.wrote [eot] 1) .intact, .deliver, .deliver,
    .sender (.read (some nak)) .intact, .sender (.read (some ack)) .intact]

def stalePort : Port :=
  ⟨⟨[some cchr, some nak, some ack, some ack, some nak, some ack], [133, 133, 133, 1], []⟩,
    [0, 0, 0, 0, 0, 0, 0, 0, 0, 0, 0]⟩

theorem fullJob_stale : uCxXmodemSend (fullJob 129) () [] stalePort = some (0, ⟨⟨[], [],
    (staleActions (blockPacket 1 (List.replicate 128 0x41) 128)
      (blockPacket 2 [0x41] 128)).filterMap Action.event⟩, []⟩) := by
  have hlen := length_blockPacket
  have h0 : toInt32 0 = 0 := rfl
  have hnak : nak ≠ ack := by decide
  simp [-List.reduceReplicate, uCxXmodemSend, fullJob, stalePort, xmodemWaitForStart, Port.getTimeMs,
    startLoop, Uart.read, h0, startTimeoutMs, sendLoop, Job.request, Job.requestLen, xmodemSendBlock,
    Config.blockSize, blockSize128, maxRetries, retryLoop, Uart.write, hlen, responseLoop, hnak,
    Job.report, Job.pauseBefore, blockSize1K, xmodemSendEot, eotLoop]
  rfl

theorem staleActions_run {p d : List UInt8} (q : List UInt8) (hp : frame p = .block 1 d)
    (hlen : p.length = 133) : ∃ l, run Link.step .init (staleActions p q) = some l ∧
      l.rx.stored = [d] := by
  simp [run, staleActions, Link.step, Link.take, Link.init, Receiver.init, Receiver.receive, hlen, hp,
    frame_eot]

theorem stale_ack :
    ¬∀ (job : Job Unit) (data : List UInt8) (io io' : Port) (actions : List Action) (l : Link),
      job.Fills data → job.dataLen = data.length → io.uart.trace = [] →
      uCxXmodemSend job () [] io = some (0, io') →
      actions.filterMap Action.event = io'.uart.trace → run Link.step .init actions = some l →
      l.rx.stored = dataBlocks job.cfg.blockSize data := by
  intro h
  have hframe := frame_blockPacket (fullJob 129).cfg 1 (List.replicate 128 0x41)
  obtain ⟨l, hrun, hstored⟩ := staleActions_run (blockPacket 2 [0x41] 128) hframe
    (length_blockPacket 1 (List.replicate 128 0x41) 128)
  have hall := h (fullJob 129) _ stalePort _ _ l (fullJob_fills 129) rfl rfl fullJob_stale rfl hrun
  have hlen := congrArg List.length hall
  rw [hstored, dataBlocks, cut] at hlen
  simp only [List.length_map, List.length_range, List.length_replicate] at hlen
  exact absurd hlen (by decide)

end Xmodem
