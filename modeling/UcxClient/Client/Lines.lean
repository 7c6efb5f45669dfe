import UcxClient.Client.Delivery
import UcxClient.Client.ByteWise

/-!
# Lines of a command

A command that expects the prefix `P` receives lines, of which the last is a status. `Turn` is the
state of the receiver somewhere in these lines: `todo` are the lines that it has not parsed yet,
`queued` the URCs that it has queued. `Turn.byte` says what a byte does: it continues a line, or it
ends the first of them, which is then handled by its kind (`LineDone`).

`Awaits` sums this up in what the command still has to return: the responses `ps` and the status `v`;
`us` are all URCs of the command. `Awaits.handleRxData`: a call of `handleRxData` keeps that, brings the
first response or ends with the status.
-/

open UrcQueue AtClient AtState

namespace Transaction

/-- A line as it arrives, with the characters that end it. -/
structure Line where
  chars : List UInt8
  eols : List UInt8

namespace Line

def bytes (l : Line) : List UInt8 := l.chars ++ l.eols

/-- The line consists of printable characters, fits into the line buffer and is ended. -/
structure Ok (rxBufferLen : Nat) (l : Line) : Prop where
  printable : ∀ b ∈ l.chars, isprint b = true
  short : l.chars.length < rxBufferLen
  ended : l.eols ≠ []
  eol : ∀ b ∈ l.eols, isEol b = true

/-- What the line is to a command that expects `P`. -/
def kind (P : List UInt8) (l : Line) : LineKind := lineKind true (some P) l.chars

end Line

/-- The parameters of the responses among the lines. -/
def rsps (P : List UInt8) (ls : List Line) : List (List UInt8) :=
  ls.filterMap fun l => match l.kind P with
    | .rsp p => some p
    | _ => none

/-- The URCs among the lines. -/
def urcs (P : List UInt8) (ls : List Line) : List Urc :=
  ls.filterMap fun l => match l.kind P with
    | .urc => some ⟨l.chars, []⟩
    | _ => none

/-- The position in the lines: what the line buffer holds, and what is still to come. -/
inductive Position : List UInt8 → List UInt8 → List Line → Prop
  | between {eols : List UInt8} {ls : List Line} (h : ∀ b ∈ eols, isEol b = true) :
      Position [] (eols ++ ls.flatMap Line.bytes) ls
  | inside {pre post : List UInt8} {l : Line} {ls : List Line} (h : pre ++ post = l.chars) :
      Position pre (post ++ (l.eols ++ ls.flatMap Line.bytes)) (l :: ls)

/-- A client whose command has no status yet and expects `P`. -/
structure Started (k : AtClient) (P : List UInt8) : Prop where
  executingCmd : k.executingCmd = true
  isBinaryRx : k.isBinaryRx = false
  status : k.status = noStatus
  pExpectedRsp : k.pExpectedRsp = some P

/-- The client is `k`, but for what lines change before the status. -/
def Follows (k c : AtClient) : Prop :=
  ∃ rxBuffer pRspParams rspBinaryBuf urcQueue,
    c = { k with rxBuffer, pRspParams, rspBinaryBuf, urcQueue }

/-- The command has its status, and the URCs `us` are queued. -/
structure Ended (k : AtClient) (v : Int) (us : List Urc) (s : AtState) : Prop where
  client : Follows { k with status := v } s.client
  queue : Holds s.client.urcQueue us

/-- The receiver somewhere in the lines of a command. -/
structure Turn (k : AtClient) (P : List UInt8) (s : AtState) (rx : List UInt8) (todo : List Line)
    (queued : List Urc) : Prop where
  client : Follows k s.client
  position : Position s.client.rxBuffer rx todo
  queue : Holds s.client.urcQueue queued
  room : (encodeAll (queued ++ urcs P todo)).length ≤ s.client.urcQueue.bufferLen
  ok : ∀ l ∈ todo, l.Ok k.rxBufferLen

/-- The command still has to bring the responses `ps` and then the status `v`; `us` are all its URCs. -/
def Awaits (k : AtClient) (P : List UInt8) (v : Int) (us : List Urc) (ps : List (List UInt8))
    (s : AtState) (rx : List UInt8) : Prop :=
  ∃ ls last queued, Turn k P s rx (ls ++ [last]) queued ∧
    (∀ l ∈ ls, ∀ w, l.kind P ≠ .status w) ∧ last.kind P = .status v ∧
    rsps P ls = ps ∧ queued ++ urcs P ls = us

/-- The reads do not fail, and they deliver all of the input if it is taken byte by byte. -/
structure Delivers (rx : List UInt8) (sched : List Arrival) : Prop where
  good : ∀ a ∈ sched, ∃ n, a = .avail n
  enough : rx.length ≤ sched.countP (· ≠ .avail 0)

/-- An input that arrives byte by byte is delivered. -/
theorem delivers_map (rx : List UInt8) : Delivers rx (rx.map fun _ => .avail 1) := by
  refine ⟨fun a ha => ?_, ?_⟩
  · obtain ⟨b, -, rfl⟩ := List.mem_map.1 ha
    exact ⟨1, rfl⟩
  · have hall : (rx.map fun _ => Arrival.avail 1).countP (· ≠ .avail 0) = rx.length := by
      rw [List.countP_eq_length.2 (by simp), List.length_map]
    exact Nat.le_of_eq hall.symm

/-- The line `l` has been handled; `ls` are to follow. -/
def LineDone (k : AtClient) (P : List UInt8) (s : AtState) (rx : List UInt8) (ret : Option ParserCode)
    (l : Line) (ls : List Line) (queued : List Urc) : LineKind → Prop
  | .urc => ret = none ∧ Turn k P s rx ls (queued ++ [⟨l.chars, []⟩])
  | .other => ret = none ∧ Turn k P s rx ls queued
  | .rsp p => ret = some .gotRsp ∧ s.client.pRspParams = some p ∧ Turn k P s rx ls queued
  | .status v => ret = some .gotStatus ∧ Ended k v queued s

/-! ## One byte -/

section
variable {k : AtClient} {P : List UInt8}

theorem urcs_cons_urc {l : Line} (h : l.kind P = .urc) (ls : List Line) :
    urcs P (l :: ls) = ⟨l.chars, []⟩ :: urcs P ls := by
  simp [urcs, h]

theorem urcs_cons_of_ne {l : Line} (h : l.kind P ≠ .urc) (ls : List Line) :
    urcs P (l :: ls) = urcs P ls := by
  unfold urcs
  rw [List.filterMap_cons]
  cases hk : l.kind P with
  | urc => exact absurd hk h
  | _ => rfl

theorem rsps_cons_rsp {l : Line} {p : List UInt8} (h : l.kind P = .rsp p) (ls : List Line) :
    rsps P (l :: ls) = p :: rsps P ls := by
  simp [rsps, h]

theorem rsps_cons_of_ne {l : Line} (h : ∀ p, l.kind P ≠ .rsp p) (ls : List Line) :
    rsps P (l :: ls) = rsps P ls := by
  unfold rsps
  rw [List.filterMap_cons]
  cases hk : l.kind P with
  | rsp p => exact absurd hk (h p)
  | _ => rfl

namespace Follows

variable {c : AtClient} (hk : Started k P) (h : Follows k c)
include hk h

theorem executingCmd : c.executingCmd = true := by
  obtain ⟨_, _, _, _, rfl⟩ := h
  exact hk.executingCmd

theorem isBinaryRx : c.isBinaryRx = false := by
  obtain ⟨_, _, _, _, rfl⟩ := h
  exact hk.isBinaryRx

theorem status : c.status = noStatus := by
  obtain ⟨_, _, _, _, rfl⟩ := h
  exact hk.status

theorem pExpectedRsp : c.pExpectedRsp = some P := by
  obtain ⟨_, _, _, _, rfl⟩ := h
  exact hk.pExpectedRsp

end Follows

theorem Follows.rxBufferLen {c : AtClient} (h : Follows k c) : c.rxBufferLen = k.rxBufferLen := by
  obtain ⟨_, _, _, _, rfl⟩ := h
  rfl

theorem Follows.timedOut {c : AtClient} (h : Follows k c) (now : Int) :
    c.timedOut now = k.timedOut now := by
  obtain ⟨_, _, _, _, rfl⟩ := h
  rfl

variable {s : AtState} {b : UInt8} {rx : List UInt8} {todo : List Line} {queued : List Urc}

/-- The end of a line in the lines of a command. -/
theorem Turn.line_end (hk : Started k P) (t : Nat) {l : Line} {ls : List Line} {eols : List UInt8}
    (h : Turn k P s (b :: (eols ++ ls.flatMap Line.bytes)) (l :: ls) queued)
    (hline : s.client.rxBuffer = l.chars) (hb : isEol b = true) (heols : ∀ b ∈ eols, isEol b = true) :
    LineDone k P (s.rxStep t (.got [b])).1 (eols ++ ls.flatMap Line.bytes)
      (s.rxStep t (.got [b])).2 l ls queued (l.kind P) := by
  have hstep : s.rxStep t (.got [b]) = s.readChar t [b] := by
    simp only [rxStep, h.client.isBinaryRx hk, Bool.not_false, ↓reduceIte]
  have hparse : s.client.parseLine t s.client.rxBuffer = s.client.onLine t l.chars (l.kind P) := by
    rw [parseLine_eq, h.client.executingCmd hk, h.client.pExpectedRsp hk, hline]
    rfl
  have hok : ∀ l' ∈ ls, l'.Ok k.rxBufferLen := fun l' hl' => h.ok l' (List.mem_cons_of_mem _ hl')
  obtain ⟨rxBuffer, pRspParams, rspBinaryBuf, urcQueue, hc⟩ := h.client
  have hroom := h.room
  have hqueue := h.queue
  rw [hstep, readChar_eol t s hb, hparse]
  cases hkind : l.kind P with
  | status v =>
    refine ⟨rfl, ⟨⟨[], pRspParams, rspBinaryBuf, urcQueue, ?_⟩, ?_⟩⟩
    · simp only [onLine, lineDone, hc]
      rfl
    · exact hqueue
  | rsp p =>
    rw [urcs_cons_of_ne (by simp [hkind])] at hroom
    refine ⟨rfl, rfl, ⟨⟨[], some p, rspBinaryBuf, urcQueue, ?_⟩, .between heols, hqueue, hroom, hok⟩⟩
    simp only [onLine, lineDone, hc]
    rfl
  | other =>
    rw [urcs_cons_of_ne (by simp [hkind])] at hroom
    refine ⟨rfl, ⟨⟨[], pRspParams, rspBinaryBuf, urcQueue, ?_⟩, .between heols, hqueue, hroom, hok⟩⟩
    simp only [onLine, lineDone, hc]
    rfl
  | urc =>
    rw [urcs_cons_urc hkind] at hroom
    have hfits : s.client.urcQueue.bufferPos + (4 + l.chars.length + 1) ≤
        s.client.urcQueue.bufferLen := by
      rw [hqueue.pos]
      simp only [encodeAll, List.flatMap_append, List.flatMap_cons, List.length_append,
        Urc.length_encode, Urc.length_data, List.length_nil] at hroom ⊢
      omega
    obtain ⟨hacc, hholds, hlen⟩ := hqueue.enqueueLine t hfits
    simp only [onLine, hacc, ↓reduceIte, lineDone]
    refine ⟨rfl, ⟨⟨[], pRspParams, rspBinaryBuf, uCxAtUrcQueueEnqueueEnd t
      (uCxAtUrcQueueEnqueueBegin t s.client.urcQueue l.chars).2 0, ?_⟩, .between heols, hholds, ?_, hok⟩⟩
    · rw [hc]
    · rw [List.append_assoc, hlen]
      exact hroom

/-- A byte within a line or at its end. -/
theorem Turn.byte_inside (hk : Started k P) (t : Nat) {l : Line} {ls : List Line} {post : List UInt8}
    (h : Turn k P s (b :: rx) (l :: ls) queued) (hl : s.client.rxBuffer ++ post = l.chars)
    (hrx : b :: rx = post ++ (l.eols ++ ls.flatMap Line.bytes)) :
    ((s.rxStep t (.got [b])).2 = none ∧ Turn k P (s.rxStep t (.got [b])).1 rx (l :: ls) queued) ∨
    LineDone k P (s.rxStep t (.got [b])).1 rx (s.rxStep t (.got [b])).2 l ls queued (l.kind P) := by
  have hok := h.ok l List.mem_cons_self
  cases post with
  | cons c post =>
    rw [List.cons_append] at hrx
    cases hrx
    have hpr : isprint b = true := hok.printable b (by simp [← hl])
    have hlen : ¬(s.client.rxBuffer ++ [b]).length = s.client.rxBufferLen := by
      have hshort := hok.short
      rw [← hl] at hshort
      rw [h.client.rxBufferLen]
      simp only [List.length_append, List.length_cons, List.length_nil] at hshort ⊢
      omega
    have hl' : (s.client.rxBuffer ++ [b]) ++ post = l.chars := by
      rw [List.append_assoc]
      exact hl
    have hstep : s.rxStep t (.got [b]) = s.readChar t [b] := by
      simp only [rxStep, h.client.isBinaryRx hk, Bool.not_false, ↓reduceIte]
    obtain ⟨rxBuffer, pRspParams, rspBinaryBuf, urcQueue, hc⟩ := h.client
    refine .inl ?_
    rw [hstep, readChar_print t s hpr, if_neg hlen]
    refine ⟨rfl, ⟨⟨s.client.rxBuffer ++ [b], pRspParams, rspBinaryBuf, urcQueue, ?_⟩, .inside hl',
      h.queue, h.room, h.ok⟩⟩
    rw [hc]
  | nil =>
    rw [List.append_nil] at hl
    have heol := hok.eol
    cases heols : l.eols with
    | nil => exact absurd heols hok.ended
    | cons e eols =>
      rw [heols, List.nil_append, List.cons_append] at hrx
      rw [heols] at heol
      cases hrx
      refine .inr (Turn.line_end hk t h hl (heol b List.mem_cons_self) ?_)
      exact fun b hb => heol b (List.mem_cons_of_mem _ hb)

/-- **What a byte does** in the lines of a command. -/
theorem Turn.byte (hk : Started k P) (t : Nat) (h : Turn k P s (b :: rx) todo queued)
    (hne : todo ≠ []) :
    ((s.rxStep t (.got [b])).2 = none ∧ Turn k P (s.rxStep t (.got [b])).1 rx todo queued) ∨
    ∃ l ls, todo = l :: ls ∧
      LineDone k P (s.rxStep t (.got [b])).1 rx (s.rxStep t (.got [b])).2 l ls queued (l.kind P) := by
  obtain ⟨l, ls, rfl⟩ := List.exists_cons_of_ne_nil hne
  have hpos := h.position
  generalize hbuf : s.client.rxBuffer = pre at hpos
  generalize hall : b :: rx = all at hpos
  cases hpos with
  | @between eols _ heol =>
    cases eols with
    | cons e eols =>
      -- a character that ends the line before
      rw [List.cons_append] at hall
      cases hall
      have hnop : s.client.parseLine t s.client.rxBuffer = (s.client, .nop) := by
        rw [hbuf]
        rfl
      have hstep : s.rxStep t (.got [b]) = s.readChar t [b] := by
        simp only [rxStep, h.client.isBinaryRx hk, Bool.not_false, ↓reduceIte]
      obtain ⟨rxBuffer, pRspParams, rspBinaryBuf, urcQueue, hc⟩ := h.client
      refine .inl ?_
      rw [hstep, readChar_eol t s (heol b List.mem_cons_self), hnop]
      refine ⟨rfl, ⟨⟨[], pRspParams, rspBinaryBuf, urcQueue, ?_⟩,
        .between fun b hb => heol b (List.mem_cons_of_mem _ hb), h.queue, h.room, h.ok⟩⟩
      simp only [lineDone, hc]
      rfl
    | nil =>
      have hl : s.client.rxBuffer ++ l.chars = l.chars := by rw [hbuf, List.nil_append]
      have hrx : b :: rx = l.chars ++ (l.eols ++ ls.flatMap Line.bytes) := by
        rw [hall, List.nil_append, List.flatMap_cons, Line.bytes, List.append_assoc]
      exact (Turn.byte_inside hk t h hl hrx).imp_right fun h => ⟨l, ls, rfl, h⟩
  | inside hl =>
    rw [← hbuf] at hl
    exact (Turn.byte_inside hk t h hl hall).imp_right fun h => ⟨_, _, rfl, h⟩

/-! ## A call of `handleRxData` -/

variable {v : Int} {us : List Urc} {ps : List (List UInt8)}

theorem Awaits.follows (h : Awaits k P v us ps s rx) : Follows k s.client := by
  obtain ⟨ls, last, queued, hturn, -⟩ := h
  exact hturn.client

/-- The status has not been received yet. -/
theorem Awaits.rx_ne_nil (h : Awaits k P v us ps s rx) : rx ≠ [] := by
  obtain ⟨ls, last, queued, hturn, -⟩ := h
  rintro rfl
  have hlast := (hturn.ok last (by simp)).ended
  have hpos := hturn.position
  generalize htodo : ls ++ [last] = todo at hpos
  generalize hnil : ([] : List UInt8) = all at hpos
  generalize s.client.rxBuffer = pre at hpos
  cases hpos with
  | between heol =>
    subst htodo
    simp [Line.bytes, hlast] at hnil
  | @inside _ post l _ hl =>
    have hl := (hturn.ok l (by simp [htodo])).ended
    simp [hl] at hnil

/-- **A byte** leaves what the command still has to bring as it was, or brings the first of it. -/
theorem Awaits.byte (hk : Started k P) (t : Nat) (h : Awaits k P v us ps s (b :: rx)) :
    ((s.rxStep t (.got [b])).2 = none ∧ Awaits k P v us ps (s.rxStep t (.got [b])).1 rx) ∨
    (∃ p ps', ps = p :: ps' ∧ (s.rxStep t (.got [b])).2 = some .gotRsp ∧
      (s.rxStep t (.got [b])).1.client.pRspParams = some p ∧
      Awaits k P v us ps' (s.rxStep t (.got [b])).1 rx) ∨
    (ps = [] ∧ (s.rxStep t (.got [b])).2 = some .gotStatus ∧
      Ended k v us (s.rxStep t (.got [b])).1) := by
  obtain ⟨ls, last, queued, hturn, hno, hlast, hps, hus⟩ := h
  rcases hturn.byte hk t (by simp) with ⟨hret, hturn'⟩ | ⟨l, ls', hl, hdone⟩
  · exact .inl ⟨hret, ls, last, queued, hturn', hno, hlast, hps, hus⟩
  cases ls with
  | nil =>
    rw [List.nil_append] at hl
    cases hl
    rw [hlast] at hdone
    obtain ⟨hret, hend⟩ := hdone
    have hq : queued = us := by simpa [urcs] using hus
    exact .inr (.inr ⟨hps.symm, hret, hq ▸ hend⟩)
  | cons l' ls =>
    rw [List.cons_append] at hl
    cases hl
    have hno' : ∀ l ∈ ls, ∀ w, l.kind P ≠ .status w :=
      fun l hl => hno l (List.mem_cons_of_mem _ hl)
    cases hkind : l.kind P with
    | status w => exact absurd hkind (hno l List.mem_cons_self w)
    | rsp p =>
      rw [hkind] at hdone
      obtain ⟨hret, hp, hturn'⟩ := hdone
      rw [rsps_cons_rsp hkind] at hps
      rw [urcs_cons_of_ne (by simp [hkind])] at hus
      exact .inr (.inl ⟨p, rsps P ls, hps.symm, hret, hp, ls, last, queued, hturn', hno', hlast, rfl, hus⟩)
    | urc =>
      rw [hkind] at hdone
      obtain ⟨hret, hturn'⟩ := hdone
      rw [rsps_cons_of_ne (by simp [hkind])] at hps
      rw [urcs_cons_urc hkind, List.append_cons] at hus
      exact .inl ⟨hret, ls, last, queued ++ [⟨l.chars, []⟩], hturn', hno', hlast, hps, hus⟩
    | other =>
      rw [hkind] at hdone
      obtain ⟨hret, hturn'⟩ := hdone
      rw [rsps_cons_of_ne (by simp [hkind])] at hps
      rw [urcs_cons_of_ne (by simp [hkind])] at hus
      exact .inl ⟨hret, ls, last, queued, hturn', hno', hlast, hps, hus⟩

/-- What a call of `handleRxData` brings. -/
def Brings (k : AtClient) (P : List UInt8) (v : Int) (us : List Urc) (ps : List (List UInt8))
    (s : AtState) (rx : List UInt8) (ret : ParserCode) : Prop :=
  (ret = .nop ∧ Awaits k P v us ps s rx) ∨
  (∃ p ps', ps = p :: ps' ∧ ret = .gotRsp ∧ s.client.pRspParams = some p ∧ Awaits k P v us ps' s rx) ∨
  (ps = [] ∧ ret = .gotStatus ∧ Ended k v us s)

theorem Awaits.handleRxData (hk : Started k P) (t : Nat) {sched : List Arrival}
    (h : Awaits k P v us ps s rx) (hd : Delivers rx sched) :
    ∃ s' uart' ret, s.handleRxData t rx sched = (s', uart', ret) ∧
      uart'.sched.length < sched.length ∧ Delivers uart'.rx uart'.sched ∧
      Brings k P v us ps s' uart'.rx ret := by
  induction sched generalizing s rx with
  | nil =>
    have henough := hd.enough
    rw [List.countP_nil, Nat.le_zero, List.length_eq_zero_iff] at henough
    exact absurd henough h.rx_ne_nil
  | cons a sched ih =>
    obtain ⟨n, rfl⟩ := hd.good a List.mem_cons_self
    have hgood : ∀ a ∈ sched, ∃ n, a = .avail n := fun a ha => hd.good a (List.mem_cons_of_mem _ ha)
    have henough := hd.enough
    have hwants : s.wants = 1 := by simp [wants, h.follows.isBinaryRx hk]
    simp only [AtState.handleRxData, Arrival.read, hwants]
    cases n with
    | zero =>
      rw [List.countP_cons_of_neg (by simp)] at henough
      rw [Nat.zero_min, List.take_zero, List.drop_zero, rxStep_nil]
      exact ⟨s, ⟨rx, sched⟩, .nop, rfl, by simp, ⟨hgood, henough⟩, .inl ⟨rfl, h⟩⟩
    | succ n =>
      rw [List.countP_cons_of_pos (by simp)] at henough
      obtain ⟨b, rx', rfl⟩ := List.exists_cons_of_ne_nil h.rx_ne_nil
      have hd' : Delivers rx' sched := ⟨hgood, by simpa using henough⟩
      rw [show min (n + 1) 1 = 1 by omega, List.take_succ_cons, List.take_zero, List.drop_succ_cons,
        List.drop_zero]
      have hbyte := h.byte hk t
      rcases hr : s.rxStep t (.got [b]) with ⟨s1, _ | ret⟩
      · rw [hr] at hbyte
        rcases hbyte with ⟨-, h'⟩ | ⟨_, _, -, hcontra, -⟩ | ⟨-, hcontra, -⟩
        · obtain ⟨s2, uart', ret, heq, hlt, hdel, hbr⟩ := ih h' hd'
          refine ⟨s2, uart', ret, heq, ?_, hdel, hbr⟩
          rw [List.length_cons]
          omega
        · cases hcontra
        · cases hcontra
      · rw [hr] at hbyte
        refine ⟨s1, ⟨rx', sched⟩, ret, rfl, by simp, hd', ?_⟩
        rcases hbyte with ⟨hcontra, -⟩ | ⟨p, ps', hps, hret, hp, h'⟩ | ⟨hps, hret, hend⟩
        · cases hcontra
        · exact .inr (.inl ⟨p, ps', hps, Option.some.inj hret, hp, h'⟩)
        · exact .inr (.inr ⟨hps, Option.some.inj hret, hend⟩)

end

end Transaction
