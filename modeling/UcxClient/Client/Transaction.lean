import Mathlib.Data.List.Basic
import UcxClient.Client.Leftover
import UcxClient.Client.Lines
import UcxClient.Lib.Strtol

/-!
# The transaction contract

`Answer P n` is what a module sends while a command runs that expects the prefix `P`: response lines,
URC lines and echo lines in any order, and then a status line, all of them printable and shorter than
`n`. `transaction_contract`: as long as nothing times out and no read fails,
`uCxAtClientCmdGetRspParamLine` returns the responses in order and then NULL, `uCxAtClientCmdEnd` the
status, and the URC callback gets the URCs in order once `cmdMutex` is free.

A URC of 65536 characters or more does not fit the length field of its entry (`long_urc`), and in a
URC buffer of 2^31 bytes or more the queue does not find its free space (`huge_urc_buffer`).
-/

open UrcQueue AtClient AtState

namespace Transaction

/-! ## The loops of the API -/

/-- A command on the way: it awaits responses or has its status. -/
def Stage (k : AtClient) (P : List UInt8) (v : Int) (us : List Urc) (ps : List (List UInt8))
    (s : AtState) (h : Host) : Prop :=
  (Awaits k P v us ps s h.uart.rx ∧ Delivers h.uart.rx h.uart.sched ∧
    h.uart.sched.length ≤ h.clock.length ∧ ∀ now ∈ h.clock, k.timedOut now = false) ∨
  (ps = [] ∧ Ended k v us s)

section
variable {k : AtClient} {P : List UInt8} {v : Int} {us : List Urc} {ps : List (List UInt8)}
  {s : AtState} {h : Host}

theorem Ended.status (he : Ended k v us s) : s.client.status = v := by
  obtain ⟨_, _, _, _, hc⟩ := he.client
  rw [hc]

theorem rspLoop_ended (t : Nat) (he : Ended k v us s) (hv : v ≠ noStatus) (uart : Uart)
    (clock : List Int) : s.rspLoop t uart clock = some (none, s, ⟨uart, clock⟩) := by
  have hst : ¬s.client.status = noStatus := he.status ▸ hv
  cases clock with
  | nil => rw [rspLoop, if_neg hst]
  | cons now clock => rw [rspLoop, if_neg hst]

theorem endLoop_ended (t : Nat) (he : Ended k v us s) (hv : v ≠ noStatus) (uart : Uart)
    (clock : List Int) : s.endLoop t uart clock = some (s, ⟨uart, clock⟩) := by
  have hst : ¬s.client.status = noStatus := he.status ▸ hv
  cases clock with
  | nil => rw [endLoop, if_neg hst]
  | cons now clock => rw [endLoop, if_neg hst]

/-- The loop of `uCxAtClientCmdGetRspParamLine` runs to the next response or the status. -/
theorem Stage.rspLoop (hk : Started k P) (hv : v ≠ noStatus) (t : Nat) (hs : Stage k P v us ps s h) :
    ∃ s' h', s.rspLoop t h.uart h.clock = some (ps.head?, s', h') ∧ Stage k P v us ps.tail s' h' := by
  obtain ⟨uart, clock⟩ := h
  induction clock generalizing s uart with
  | nil =>
    rcases hs with ⟨haw, hd, hlen, -⟩ | ⟨rfl, he⟩
    · obtain ⟨_, _, _, -, hlt, -⟩ := haw.handleRxData hk t hd
      exact absurd (Nat.lt_of_lt_of_le hlt hlen) (Nat.not_lt_zero _)
    · exact ⟨s, ⟨uart, []⟩, rspLoop_ended t he hv uart [], .inr ⟨rfl, he⟩⟩
  | cons now clock ih =>
    rcases hs with ⟨haw, hd, hlen, ht⟩ | ⟨rfl, he⟩
    · obtain ⟨s1, uart1, ret, heq, hlt, hd1, hbr⟩ := haw.handleRxData hk t hd
      have hst := haw.follows.status hk
      have hnow := ht now List.mem_cons_self
      have ht1 : ∀ n ∈ clock, k.timedOut n = false := fun n hn => ht n (List.mem_cons_of_mem _ hn)
      have hlen1 : uart1.sched.length ≤ clock.length :=
        Nat.le_of_lt_succ (Nat.lt_of_lt_of_le hlt hlen)
      rw [AtState.rspLoop, if_pos hst, heq]
      rcases hbr with ⟨rfl, haw1⟩ | ⟨p, ps', rfl, rfl, hp, haw1⟩ | ⟨rfl, rfl, he⟩
      · have hto : s1.client.timedOut now = false := (haw1.follows.timedOut now).trans hnow
        obtain ⟨s2, h2, h3, h4⟩ := ih (s := s1) uart1 (.inl ⟨haw1, hd1, hlen1, ht1⟩)
        exact ⟨s2, h2, by simpa [hto] using h3, h4⟩
      · exact ⟨s1, ⟨uart1, now :: clock⟩, by simp [hp],
          .inl ⟨haw1, hd1, Nat.le_succ_of_le hlen1, ht⟩⟩
      · have hto : s1.client.timedOut now = false := (he.client.timedOut now).trans hnow
        have hloop := rspLoop_ended t he hv uart1 clock
        exact ⟨s1, ⟨uart1, clock⟩, by simpa [hto] using hloop, .inr ⟨rfl, he⟩⟩
    · exact ⟨s, ⟨uart, now :: clock⟩, rspLoop_ended t he hv uart _, .inr ⟨rfl, he⟩⟩

/-- The loop of `cmdEnd` runs to the status. -/
theorem Stage.endLoop (hk : Started k P) (hv : v ≠ noStatus) (t : Nat) (hs : Stage k P v us ps s h) :
    ∃ s' h', s.endLoop t h.uart h.clock = some (s', h') ∧ Ended k v us s' := by
  obtain ⟨uart, clock⟩ := h
  induction clock generalizing s uart ps with
  | nil =>
    rcases hs with ⟨haw, hd, hlen, -⟩ | ⟨rfl, he⟩
    · obtain ⟨_, _, _, -, hlt, -⟩ := haw.handleRxData hk t hd
      exact absurd (Nat.lt_of_lt_of_le hlt hlen) (Nat.not_lt_zero _)
    · exact ⟨s, ⟨uart, []⟩, endLoop_ended t he hv uart [], he⟩
  | cons now clock ih =>
    rcases hs with ⟨haw, hd, hlen, ht⟩ | ⟨rfl, he⟩
    · obtain ⟨s1, uart1, ret, heq, hlt, hd1, hbr⟩ := haw.handleRxData hk t hd
      have hst := haw.follows.status hk
      have hnow := ht now List.mem_cons_self
      have ht1 : ∀ n ∈ clock, k.timedOut n = false := fun n hn => ht n (List.mem_cons_of_mem _ hn)
      have hlen1 : uart1.sched.length ≤ clock.length :=
        Nat.le_of_lt_succ (Nat.lt_of_lt_of_le hlt hlen)
      have hnext : ∀ {ps'}, Awaits k P v us ps' s1 uart1.rx → ∃ s' h',
          s.endLoop t uart (now :: clock) = some (s', h') ∧ Ended k v us s' := by
        intro ps' haw1
        have hto : s1.client.timedOut now = false := (haw1.follows.timedOut now).trans hnow
        have hst1 := haw1.follows.status hk
        obtain ⟨s2, h2, h3, h4⟩ := ih (s := s1) uart1 (.inl ⟨haw1, hd1, hlen1, ht1⟩)
        refine ⟨s2, h2, ?_, h4⟩
        rw [AtState.endLoop, if_pos hst, heq]
        simpa [cmdEndCheck, hto, hst1] using h3
      rcases hbr with ⟨-, haw1⟩ | ⟨p, ps', -, -, -, haw1⟩ | ⟨-, -, he⟩
      · exact hnext haw1
      · exact hnext haw1
      · have hto : s1.client.timedOut now = false := (he.client.timedOut now).trans hnow
        refine ⟨s1, ⟨uart1, clock⟩, ?_, he⟩
        rw [AtState.endLoop, if_pos hst, heq]
        simp [cmdEndCheck, hto, he.status, hv]
    · exact ⟨s, ⟨uart, now :: clock⟩, endLoop_ended t he hv uart _, he⟩

theorem Awaits.expectRsp (hk : Started k P) {rx : List UInt8} (h : Awaits k P v us ps s rx)
    (buf : BinaryResponseBuf) : Awaits k P v us ps
      { s with client := s.client.expectRsp (some P) buf.pBuffer buf.pBufferLength } rx := by
  obtain ⟨ls, last, queued, ⟨⟨rxBuffer, pRspParams, rspBinaryBuf, urcQueue, hc⟩, h1, h2, h3, h4⟩, hrest⟩ := h
  refine ⟨ls, last, queued, ⟨⟨rxBuffer, none, buf, urcQueue, ?_⟩, h1, h2, h3, h4⟩, hrest⟩
  simp only [AtClient.expectRsp, hc, ← hk.pExpectedRsp]

theorem Stage.expectRsp (hk : Started k P) (hs : Stage k P v us ps s h) (buf : BinaryResponseBuf) :
    Stage k P v us ps
      { s with client := s.client.expectRsp (some P) buf.pBuffer buf.pBufferLength } h := by
  rcases hs with ⟨haw, hrest⟩ | ⟨hps, ⟨rxBuffer, pRspParams, rspBinaryBuf, urcQueue, hc⟩, hq⟩
  · exact .inl ⟨haw.expectRsp hk buf, hrest⟩
  · refine .inr ⟨hps, ⟨rxBuffer, none, buf, urcQueue, ?_⟩, hq⟩
    simp only [AtClient.expectRsp, hc, ← hk.pExpectedRsp]

end

/-- `uCxAtClientCmdGetRspParamLine` once for each of the buffers: what the calls return. -/
def rspLines (t : Nat) (P : List UInt8) : List BinaryResponseBuf → AtState → Host →
    Option (List (Option (List UInt8)) × AtState × Host)
  | [], s, h => some ([], s, h)
  | buf :: bufs, s, h =>
    (s.uCxAtClientCmdGetRspParamLine t (some P) buf h).bind fun (ret, s, h) =>
      (rspLines t P bufs s h).map fun (rets, s, h) => (ret :: rets, s, h)

/-- What `n` calls return when there are the responses `ps`. -/
def expectedRets (ps : List (List UInt8)) (n : Nat) : List (Option (List UInt8)) :=
  (ps.map some ++ List.replicate n none).take n

theorem expectedRets_succ (ps : List (List UInt8)) (n : Nat) :
    expectedRets ps (n + 1) = ps.head? :: expectedRets ps.tail n := by
  cases ps with
  | nil => simp [expectedRets, List.replicate_succ]
  | cons p ps =>
    simp only [expectedRets, List.map_cons, List.cons_append, List.take_succ_cons, List.head?_cons,
      List.tail_cons, List.replicate_succ', ← List.append_assoc]
    rw [List.take_append_of_le_length (by simp)]

/-- The calls return the responses in order, and then NULL. -/
theorem Stage.rspLines {k : AtClient} {P : List UInt8} {v : Int} {us : List Urc}
    (hk : Started k P) (hv : v ≠ noStatus) (t : Nat) (bufs : List BinaryResponseBuf)
    {ps : List (List UInt8)} {s : AtState} {h : Host} (hs : Stage k P v us ps s h) :
    ∃ s' h' ps', rspLines t P bufs s h = some (expectedRets ps bufs.length, s', h') ∧
      Stage k P v us ps' s' h' := by
  induction bufs generalizing ps s h with
  | nil => exact ⟨s, h, ps, rfl, hs⟩
  | cons buf bufs ih =>
    obtain ⟨s1, h1, heq, hs1⟩ := (hs.expectRsp hk buf).rspLoop hk hv t
    obtain ⟨s2, h2, ps', heq', hs2⟩ := ih hs1
    refine ⟨s2, h2, ps', ?_, hs2⟩
    rw [Transaction.rspLines, uCxAtClientCmdGetRspParamLine, heq, Option.bind_some,
      List.length_cons, expectedRets_succ]
    simp only [heq', Option.map_some]

/-! ## What a module answers -/

/-- A line before the status. -/
inductive Item where
  | rsp (params : List UInt8)
  | urc (line : List UInt8)
  | echo (rest : List UInt8)

/-- The status line. -/
inductive Final where
  | ok
  | error
  | code (digits : List UInt8)

def Item.chars (P : List UInt8) : Item → List UInt8
  | .rsp params => P ++ params
  | .urc line => line
  | .echo rest => text "AT+" ++ rest

/-- What the line is to the command. -/
def Item.kind : Item → LineKind
  | .rsp params => .rsp params
  | .urc _ => .urc
  | .echo _ => .other

def Final.chars : Final → List UInt8
  | .ok => text "OK"
  | .error => text "ERROR"
  | .code digits => text "ERROR:" ++ digits

/-- The status that the line denotes. -/
def Final.status : Final → Int
  | .ok => 0
  | .error => -1
  | .code digits => -(ofDigits 10 0 digits : Int)

/-- A URC starts like one and not with the prefix that the command expects. -/
def Item.Ok (P : List UInt8) : Item → Prop
  | .urc line => isUrcLine line = true ∧ P.isPrefixOf line = false
  | _ => True

/-- An error code is a numeral between 1 and 65535. -/
def Final.Ok : Final → Prop
  | .code digits => digits ≠ [] ∧ (∀ d ∈ digits, isdigit d = true) ∧
      1 ≤ ofDigits 10 0 digits ∧ ofDigits 10 0 digits ≤ 65535
  | _ => True

/-- What a module answers to a command that expects `P`; the lines fit a line buffer of `n` bytes. -/
structure Answer (P : List UInt8) (n : Nat) where
  items : List (Item × List UInt8)
  final : Final
  eols : List UInt8
  items_ok : ∀ x ∈ items, x.1.Ok P ∧ Line.Ok n ⟨x.1.chars P, x.2⟩
  final_ok : final.Ok ∧ Line.Ok n ⟨final.chars, eols⟩

namespace Answer

variable {P : List UInt8} {n : Nat} (a : Answer P n)

def lines : List Line := a.items.map fun x => ⟨x.1.chars P, x.2⟩

def last : Line := ⟨a.final.chars, a.eols⟩

/-- The bytes on the UART. -/
def bytes : List UInt8 := (a.lines ++ [a.last]).flatMap Line.bytes

/-- The parameters of the responses. -/
def params : List (List UInt8) :=
  a.items.filterMap fun x => match x.1 with
    | .rsp p => some p
    | _ => none

def urcLines : List (List UInt8) :=
  a.items.filterMap fun x => match x.1 with
    | .urc line => some line
    | _ => none

/-- The URCs as entries of the queue. -/
def urcs : List Urc := a.urcLines.map fun line => ⟨line, []⟩

theorem lines_ok : ∀ l ∈ a.lines ++ [a.last], l.Ok n := by
  intro l hl
  rcases List.mem_append.1 hl with hl | hl
  · obtain ⟨x, hx, rfl⟩ := List.mem_map.1 hl
    exact (a.items_ok x hx).2
  · rw [List.mem_singleton.1 hl]
    exact a.final_ok.2

end Answer

/-! ## The kinds of the lines -/

theorem exists_of_isUrcLine {line : List UInt8} (h : isUrcLine line = true) :
    ∃ c cs, line = c :: cs ∧ (c = ch '+' ∨ c = ch '*') := by
  cases line with
  | nil => cases h
  | cons c cs =>
    refine ⟨c, cs, rfl, ?_⟩
    simpa [isUrcLine] using h

theorem kind_urc {P line : List UInt8} (h : isUrcLine line = true) (hne : P.isPrefixOf line = false)
    (eols : List UInt8) : Line.kind P ⟨line, eols⟩ = .urc := by
  obtain ⟨c, cs, rfl, hc⟩ := exists_of_isUrcLine h
  have hexp : expectedBy (some P) (c :: cs) = false := by simp [expectedBy, hne]
  have hok : c :: cs ≠ text "OK" := by
    rcases hc with rfl | rfl <;> exact fun h => absurd (List.cons.inj h).1 (by decide)
  have herr : (text "ERROR").isPrefixOf (c :: cs) = false := by
    rcases hc with rfl | rfl <;> rfl
  have hall : (c :: cs).all (fun b => decide (b = ch '\n' ∨ b = ch '\r')) = false := by
    rcases hc with rfl | rfl <;> rfl
  simp only [Line.kind, lineKind, hall, cmdKind, hexp, if_neg hok, herr, h, urcKind]
  rfl

section
variable {P : List UInt8} (hP : isUrcLine P = true)
include hP

/-- A line that starts otherwise is not empty and not expected. -/
theorem not_expected {c : UInt8} {cs : List UInt8} (h1 : c ≠ ch '+') (h2 : c ≠ ch '*') :
    expectedBy (some P) (c :: cs) = false := by
  obtain ⟨p, ps, rfl, hp⟩ := exists_of_isUrcLine hP
  have hne : (p == c) = false := by
    rw [beq_eq_false_iff_ne]
    rintro rfl
    rcases hp with hp | hp
    · exact h1 hp
    · exact h2 hp
  simp [expectedBy, List.isPrefixOf, hne]

theorem kind_rsp (p eols : List UInt8) : Line.kind P ⟨P ++ p, eols⟩ = .rsp p := by
  obtain ⟨c, cs, rfl, hc⟩ := exists_of_isUrcLine hP
  have hne : ¬(c = ch '\n' ∨ c = ch '\r') := by
    rcases hc with rfl | rfl <;> decide
  have hexp : expectedBy (some (c :: cs)) (c :: cs ++ p) = true := by
    simp [expectedBy]
  simp only [Line.kind, lineKind, cmdKind, hexp, ↓reduceIte, Option.getD_some, List.drop_left]
  rw [if_neg (by simp [hne])]

theorem kind_echo (rest eols : List UInt8) : Line.kind P ⟨text "AT+" ++ rest, eols⟩ = .other := by
  have hexp : expectedBy (some P) (text "AT+" ++ rest) = false :=
    not_expected hP (by decide) (by decide)
  have hok : text "AT+" ++ rest ≠ text "OK" := fun h => absurd (List.cons.inj h).1 (by decide)
  simp only [Line.kind, lineKind, cmdKind, hexp, if_neg hok]
  rfl

theorem kind_final {f : Final} (hf : f.Ok) (eols : List UInt8) :
    Line.kind P ⟨f.chars, eols⟩ = .status f.status := by
  cases f with
  | ok =>
    have hexp : expectedBy (some P) (text "OK") = false := not_expected hP (by decide) (by decide)
    simp only [Line.kind, lineKind, cmdKind, Final.chars, hexp]
    rfl
  | error =>
    have hexp : expectedBy (some P) (text "ERROR") = false := not_expected hP (by decide) (by decide)
    simp only [Line.kind, lineKind, cmdKind, Final.chars, hexp]
    rfl
  | code digits =>
    have hexp : expectedBy (some P) (text "ERROR:" ++ digits) = false :=
      not_expected hP (by decide) (by decide)
    have hok : text "ERROR:" ++ digits ≠ text "OK" :=
      fun h => absurd (List.cons.inj h).1 (by decide)
    obtain ⟨hne, hdigits, -, hmax⟩ := hf
    obtain ⟨d, ds, rfl⟩ := List.exists_cons_of_ne_nil hne
    have hstatus : errorStatus (text "ERROR:" ++ d :: ds) =
        some (-(ofDigits 10 0 (d :: ds) : Int)) := by
      have hstrtol : strtol 10 (d :: ds) = (clampLong (ofDigits 10 0 (d :: ds)), []) :=
        (numeral_of_digits hne fun c hc => digitVal_lt_ten (hdigits c hc)).strtol_eq (by decide)
      have hclamp : clampLong (ofDigits 10 0 (d :: ds)) = ofDigits 10 0 (d :: ds) :=
        clampLong_eq (by omega) (by omega)
      have hcolon : (text "ERROR:" ++ d :: ds).getD 5 0 = ch ':' := rfl
      have hcode : (text "ERROR:" ++ d :: ds).drop 6 = d :: ds := rfl
      have hd : isdigit ((d :: ds).headD 0) = true := hdigits d List.mem_cons_self
      have hint : toInt32 (ofDigits 10 0 (d :: ds)) = ofDigits 10 0 (d :: ds) :=
        toInt32_of_lt (by omega) (by omega)
      have hneg : toInt32 (extendedErrorOffset - (ofDigits 10 0 (d :: ds) : Int)) =
          -(ofDigits 10 0 (d :: ds) : Int) := by
        rw [extendedErrorOffset, Int.zero_sub]
        exact toInt32_of_lt (by omega) (by omega)
      simp only [errorStatus, hcolon, hcode, hstrtol, hclamp, hd, hint, hneg, and_self, ↓reduceIte]
      rfl
    have herr : (text "ERROR").isPrefixOf (text "ERROR:" ++ d :: ds) = true := rfl
    simp only [Line.kind, lineKind, cmdKind, Final.chars, hexp, if_neg hok, herr, hstatus]
    rfl

theorem kind_item {i : Item} (hi : i.Ok P) (eols : List UInt8) :
    Line.kind P ⟨i.chars P, eols⟩ = i.kind := by
  cases i with
  | rsp p => exact kind_rsp hP p eols
  | urc line => exact kind_urc hi.1 hi.2 eols
  | echo rest => exact kind_echo hP rest eols

namespace Answer

variable {n : Nat} (a : Answer P n)

theorem rsps_lines : rsps P a.lines = a.params := by
  unfold rsps lines params
  rw [List.filterMap_map]
  apply List.filterMap_congr
  intro x hx
  have hkind := kind_item hP (a.items_ok x hx).1 x.2
  simp only [Function.comp]
  rw [hkind]
  cases x.1 <;> rfl

theorem urcs_lines : Transaction.urcs P a.lines = a.urcs := by
  unfold Transaction.urcs lines urcs urcLines
  rw [List.filterMap_map, List.map_filterMap]
  apply List.filterMap_congr
  intro x hx
  have hkind := kind_item hP (a.items_ok x hx).1 x.2
  simp only [Function.comp]
  rw [hkind]
  cases x.1 <;> rfl

theorem lines_ne_status : ∀ l ∈ a.lines, ∀ w, l.kind P ≠ .status w := by
  intro l hl w
  obtain ⟨x, hx, rfl⟩ := List.mem_map.1 hl
  rw [kind_item hP (a.items_ok x hx).1 x.2]
  cases x.1 <;> nofun

end Answer

end

theorem Final.status_ne {f : Final} (hf : f.Ok) : f.status ≠ noStatus := by
  cases f with
  | ok => decide
  | error => decide
  | code digits =>
    simp only [Final.status, noStatus]
    omega

/-! ## The contract -/

/-- Before the command: no command and no transfer is under way, and the queue is empty. -/
structure Ready (c : AtClient) : Prop where
  idle : c.Idle
  cmdFree : c.cmdMutex.Free
  callback : c.urcCallback = true
  empty : c.urcQueue.bufferPos = 0
  length : c.urcQueue.pBuffer.length = c.urcQueue.bufferLen
  enqueue : c.urcQueue.pEnqueueEntry = none
  queueFree : c.urcQueue.queueMutex.Free
  dequeueFree : c.urcQueue.dequeueMutex.Free

/-- The answer arrives without failed reads and before the timeout. -/
structure Arrives (k : AtClient) (bytes : List UInt8) (h : Host) : Prop where
  rx : h.uart.rx = bytes
  delivers : Delivers bytes h.uart.sched
  clock : h.uart.sched.length ≤ h.clock.length
  inTime : ∀ now ∈ h.clock, k.timedOut now = false

/-- The URCs have room in the URC buffer. -/
def Room (us : List Urc) (q : UrcQueue) : Prop := (encodeAll us).length ≤ q.bufferLen

/-- What the contract promises of a command that `cmdBeginF` has begun. -/
def Contract (t : Nat) (edit : Callback) {P : List UInt8} {n : Nat} (a : Answer P n) (s : AtState)
    (h : Host) (bufs : List BinaryResponseBuf) : Prop :=
  ∃ s1 h1 calls s2 h2,
    rspLines t P bufs s h = some (expectedRets a.params bufs.length, s1, h1) ∧
    s1.cmdEnd t edit h1 = some (⟨a.final.status, calls⟩, s2, h2) ∧
    calls.map Prod.snd = a.urcs.map Urc.view ∧
    ∀ x ∈ calls, x.1.executingCmd = false ∧ x.1.cmdMutex.Free

/-- An answer that is all that is left, behind the URCs `queued`. -/
theorem Answer.stage {P : List UInt8} (hP : isUrcLine P = true) {n : Nat} (a : Answer P n) {k : AtClient}
    {s : AtState} {h : Host} {queued : List Urc} (hc : Follows k s.client) (hn : k.rxBufferLen = n)
    (hbuf : s.client.rxBuffer = []) (hq : Holds s.client.urcQueue queued)
    (hroom : Room (queued ++ a.urcs) s.client.urcQueue) (hrx : Arrives k a.bytes h) :
    Stage k P a.final.status (queued ++ a.urcs) a.params s h := by
  have hlast : Line.kind P a.last = .status a.final.status := kind_final hP a.final_ok.1 a.eols
  have hurcs : Transaction.urcs P (a.lines ++ [a.last]) = a.urcs := by
    rw [← a.urcs_lines hP, Transaction.urcs, List.filterMap_append]
    simp [hlast, Transaction.urcs]
  have hturn : Turn k P s h.uart.rx (a.lines ++ [a.last]) queued := by
    refine ⟨hc, ?_, hq, ?_, fun l hl => hn ▸ a.lines_ok l hl⟩
    · have hpos : Position [] ([] ++ a.bytes) (a.lines ++ [a.last]) :=
        .between fun _ hb => absurd hb List.not_mem_nil
      rw [hrx.rx, hbuf]
      exact hpos
    · rw [hurcs]
      exact hroom
  refine .inl ⟨⟨a.lines, a.last, queued, hturn, a.lines_ne_status hP, hlast, a.rsps_lines hP, ?_⟩, ?_, hrx.clock,
    hrx.inTime⟩
  · rw [a.urcs_lines hP]
  · rw [hrx.rx]
    exact hrx.delivers

section
variable {P : List UInt8} (hP : isUrcLine P = true) {s : AtState}
  (a : Answer P s.client.rxBufferLen) (hr : Ready s.client)
  (hsmall : s.client.urcQueue.bufferLen < 2 ^ 31) (hroom : Room a.urcs s.client.urcQueue)
  (t : Nat) (now : Int) {h : Host} (hrx : Arrives (s.cmdBeginF t now).client a.bytes h)
include hP hr hsmall hroom hrx

/-- The stage of the command when it first expects a response. -/
theorem begun_stage (buf : BinaryResponseBuf) :
    Stage { (s.cmdBeginF t now).client with pExpectedRsp := some P } P a.final.status a.urcs a.params
      { (s.cmdBeginF t now) with
        client := (s.cmdBeginF t now).client.expectRsp (some P) buf.pBuffer buf.pBufferLength } h := by
  have hq : Holds s.client.urcQueue [] := ⟨⟨s.client.urcQueue.pBuffer, rfl⟩, hr.length, hr.empty, hsmall, hr.enqueue,
    hr.queueFree, hr.dequeueFree⟩
  have hc : Follows { (s.cmdBeginF t now).client with pExpectedRsp := some P }
      ((s.cmdBeginF t now).client.expectRsp (some P) buf.pBuffer buf.pBufferLength) :=
    ⟨s.client.rxBuffer, none, buf, s.client.urcQueue, rfl⟩
  exact a.stage hP (s := { (s.cmdBeginF t now) with
    client := (s.cmdBeginF t now).client.expectRsp (some P) buf.pBuffer buf.pBufferLength }) hc rfl
    hr.idle.rxBuffer hq hroom ⟨hrx.rx, hrx.delivers, hrx.clock, hrx.inTime⟩

/-- The receiver's part of the contract: the responses, the status and the URCs in the queue. -/
theorem answer_received (bufs : List BinaryResponseBuf) (hb : bufs ≠ []) :
    ∃ k s1 h1 s2 h2, k.cmdMutex = s.client.cmdMutex.lock t ∧ k.urcCallback = true ∧
      rspLines t P bufs (s.cmdBeginF t now) h =
        some (expectedRets a.params bufs.length, s1, h1) ∧
      s1.endLoop t h1.uart h1.clock = some (s2, h2) ∧ Ended k a.final.status a.urcs s2 := by
  obtain ⟨buf, bufs, rfl⟩ := List.exists_cons_of_ne_nil hb
  have hv := Final.status_ne a.final_ok.1
  have hk : Started { (s.cmdBeginF t now).client with pExpectedRsp := some P } P :=
    ⟨rfl, hr.idle.isBinaryRx, rfl, rfl⟩
  have hstage := begun_stage hP a hr hsmall hroom t now hrx buf
  obtain ⟨s1, h1, heq, hs1⟩ := hstage.rspLoop hk hv t
  obtain ⟨s2, h2, ps, heq2, hs2⟩ := hs1.rspLines hk hv t bufs
  obtain ⟨s3, h3, heq3, hend⟩ := hs2.endLoop hk hv t
  refine ⟨{ (s.cmdBeginF t now).client with pExpectedRsp := some P }, s2, h2, s3, h3, rfl,
    hr.callback, ?_, heq3, hend⟩
  rw [rspLines, uCxAtClientCmdGetRspParamLine, heq, Option.bind_some, List.length_cons,
    expectedRets_succ]
  simp only [heq2, Option.map_some]

/-- `processUrcs` is what remains of `cmdEnd` once the status is there. -/
theorem cmdEnd_received (edit : Callback) (bufs : List BinaryResponseBuf) (hb : bufs ≠ []) :
    ∃ (s1 : AtState) (h1 : Host) (c : AtClient) (h2 : Host), rspLines t P bufs (s.cmdBeginF t now) h =
        some (expectedRets a.params bufs.length, s1, h1) ∧
      Holds c.urcQueue a.urcs ∧ c.urcCallback = true ∧ c.executingCmd = false ∧ c.cmdMutex.Free ∧
      c.status = a.final.status ∧
      ∀ calls c', c.processUrcs t edit (c.urcQueue.bufferPos + 1) = some (calls, c') →
        ∃ s2, s1.cmdEnd t edit h1 = some (⟨c'.status, calls⟩, s2, h2) := by
  obtain ⟨k, s1, h1, s2, h2, hmutex, hcb, hlines, hloop, hend⟩ :=
    answer_received hP a hr hsmall hroom t now hrx bufs hb
  obtain ⟨rxBuffer, pRspParams, rspBinaryBuf, urcQueue, hc⟩ := hend.client
  refine ⟨s1, h1, s2.client.finishCmd t, h2, hlines, hend.queue, ?_, rfl, ?_, ?_, ?_⟩
  · rw [finishCmd, hc]
    exact hcb
  · have hunlock : (k.cmdMutex.unlock t).Free := by
      rw [hmutex, hr.cmdFree.unlock_lock]
      exact hr.cmdFree
    rw [finishCmd, hc]
    exact hunlock
  · rw [finishCmd, hc]
  · intro calls c' hp
    refine ⟨{ s2 with client := c' }, ?_⟩
    simp only [cmdEnd, cmdEndRx, hloop, Option.map_some, Option.bind_some, hp]

/-- **The transaction contract**, as long as the length of every URC fits the field for it. -/
theorem transaction_contract (hshort : ∀ line ∈ a.urcLines, line.length ≤ 65535) (edit : Callback)
    (bufs : List BinaryResponseBuf) (hb : bufs ≠ []) :
    Contract t edit a (s.cmdBeginF t now) h bufs := by
  obtain ⟨s1, h1, c, h2, hlines, hholds, hcb, hexec, hfree, hstatus, hend⟩ :=
    cmdEnd_received hP a hr hsmall hroom t now hrx edit bufs hb
  have hfits : ∀ u ∈ a.urcs, u.Fits := by
    intro u hu
    obtain ⟨line, hline, rfl⟩ := List.mem_map.1 hu
    exact ⟨Nat.lt_succ_of_le (hshort line hline), Nat.zero_lt_succ _⟩
  obtain ⟨calls, q', hp, -, hviews, hclients⟩ :=
    processUrcs_holds t edit hfits hholds hcb (Nat.lt_succ_self _)
  obtain ⟨s2, hs2⟩ := hend calls _ hp
  refine ⟨s1, h1, calls, s2, h2, hlines, ?_, hviews, ?_⟩
  · rw [hs2, hstatus]
  · intro x hx
    obtain ⟨q, hq⟩ := hclients x hx
    rw [hq]
    exact ⟨hexec, hfree⟩

/-- The contract holds only if the URCs are that short. -/
theorem Contract.urcs_short {edit : Callback} {bufs : List BinaryResponseBuf} (hb : bufs ≠ [])
    (hcontract : Contract t edit a (s.cmdBeginF t now) h bufs) :
    ∀ line ∈ a.urcLines, line.length ≤ 65535 := by
  obtain ⟨s1, h1, c, h2, hlines, hholds, hcb, -, -, -, hend⟩ :=
    cmdEnd_received hP a hr hsmall hroom t now hrx edit bufs hb
  obtain ⟨s1', h1', calls, s2, h2', hlines', hcmdEnd, hviews, -⟩ := hcontract
  have hsame := hlines.symm.trans hlines'
  simp only [Option.some.injEq, Prod.mk.injEq, true_and] at hsame
  obtain ⟨rfl, rfl⟩ := hsame
  obtain ⟨calls', q', hp⟩ := processUrcs_total t edit (Nat.lt_succ_self c.urcQueue.bufferPos)
  obtain ⟨s2', hs2⟩ := hend calls' _ hp
  have hsame' := hs2.symm.trans hcmdEnd
  simp only [Option.some.injEq, Prod.mk.injEq, CmdOutcome.mk.injEq] at hsame'
  obtain ⟨⟨-, rfl⟩, -⟩ := hsame'
  obtain ⟨hfits, -⟩ := fits_of_processUrcs t edit hholds.pos hcb hp hviews
  intro line hline
  exact Nat.le_of_lt_succ (hfits ⟨line, []⟩ (List.mem_map.2 ⟨line, hline, rfl⟩)).1

end

/-- A fresh client with a URC callback, for a line buffer of `n` bytes and a URC buffer of `m` bytes. -/
def client (n m : Nat) : AtState where
  client :=
    let c := uCxAtClientInit false n (List.replicate m 0)
    { c with urcCallback := true, urcQueue := { c.urcQueue with bufferLen := m } }
  mem := ⟨fun _ _ => 0, fun _ => 0⟩
  lengthBuf := (0, 0)

theorem ready_client (n m : Nat) : Ready (client n m).client :=
  ⟨⟨rfl, rfl, rfl, rfl⟩, ⟨rfl, rfl⟩, rfl, rfl, List.length_replicate, rfl, ⟨rfl, rfl⟩, ⟨rfl, rfl⟩⟩

theorem arrives_input (n m : Nat) (bs : List UInt8) :
    Arrives ((client n m).cmdBeginF 0 0).client bs (input bs) := by
  refine ⟨rfl, delivers_map bs, ?_, ?_⟩
  · simp [input]
  · intro now hnow
    obtain ⟨b, -, rfl⟩ := List.mem_map.1 hnow
    exact (rfl : (client 0 0 |>.cmdBeginF 0 0).client.timedOut 0 = false)

theorem room_client {line : List UInt8} {n m k : Nat} (hline : line.length = k) (hm : k + 5 ≤ m) :
    Room [⟨line, []⟩] (client n m).client.urcQueue := by
  show (encodeAll [⟨line, []⟩]).length ≤ m
  rw [encodeAll_cons, List.length_append, Urc.length_encode, Urc.length_data, hline]
  simp only [List.length_nil, encodeAll_nil]
  omega

/-- A fresh client fulfils the contract only for short URCs. -/
theorem urcs_short_client {n m : Nat} (hm : m < 2 ^ 31) {P : List UInt8} (hP : isUrcLine P = true)
    (a : Answer P n) (hroom : Room a.urcs (client n m).client.urcQueue)
    (hc : Contract 0 id a ((client n m).cmdBeginF 0 0) (input a.bytes) [⟨none, none⟩]) :
    ∀ line ∈ a.urcLines, line.length ≤ 65535 :=
  Contract.urcs_short hP (s := client n m) a (ready_client n m) hm hroom 0 0
    (arrives_input n m a.bytes) (List.cons_ne_nil _ _) hc

/-- A URC, an echo, two responses and an error code. -/
def sampleAnswer : Answer (text "+P") 64 where
  items := [(.urc (text "+U:1"), text "\r\n"), (.echo (text "P?"), text "\r"),
    (.rsp (text ":7"), text "\r\n"), (.urc (text "*U"), text "\n"), (.rsp [], text "\r")]
  final := .code (text "42")
  eols := text "\r\n"
  items_ok := by
    simp only [List.forall_mem_cons, List.not_mem_nil, IsEmpty.forall_iff, implies_true, and_true]
    refine ⟨⟨⟨by decide, by decide⟩, ?_⟩, ⟨trivial, ?_⟩, ⟨trivial, ?_⟩,
      ⟨⟨by decide, by decide⟩, ?_⟩, ⟨trivial, ?_⟩⟩ <;>
    exact ⟨List.all_eq_true.1 rfl, by decide, by decide, List.all_eq_true.1 rfl⟩
  final_ok := ⟨⟨by decide, List.all_eq_true.1 rfl, by decide, by decide⟩,
    ⟨List.all_eq_true.1 rfl, by decide, by decide, List.all_eq_true.1 rfl⟩⟩

/-- Three calls return the two responses and NULL; then the command ends with -42. -/
theorem transaction_contract_sample : Contract 0 id sampleAnswer ((client 64 64).cmdBeginF 0 0)
    (input sampleAnswer.bytes) [⟨none, none⟩, ⟨some 1, some 2⟩, ⟨none, none⟩] :=
  transaction_contract (by decide) sampleAnswer (ready_client 64 64) (by decide)
    (by unfold Room; decide) 0 0 (arrives_input 64 64 sampleAnswer.bytes) (by decide) id _
    (List.cons_ne_nil _ _)

/-- A URC of 65536 characters. -/
def longUrc : List UInt8 := ch '+' :: List.replicate 65535 (ch 'a')

theorem length_longUrc : longUrc.length = 65536 := by
  rw [longUrc, List.length_cons, List.length_replicate]

def longAnswer : Answer (text "+P") 70000 where
  items := [(.urc longUrc, text "\r")]
  final := .ok
  eols := text "\r"
  items_ok := by
    intro x hx
    rw [List.mem_singleton.1 hx]
    have hprintable : ∀ b ∈ longUrc, isprint b = true := by
      intro b hb
      rcases List.mem_cons.1 hb with rfl | hb
      · rfl
      · rw [List.eq_of_mem_replicate hb]
        rfl
    refine ⟨⟨rfl, rfl⟩, ⟨hprintable, ?_, by decide, List.all_eq_true.1 rfl⟩⟩
    show longUrc.length < 70000
    rw [length_longUrc]
    decide
  final_ok := ⟨trivial, ⟨List.all_eq_true.1 rfl, by decide, by decide, List.all_eq_true.1 rfl⟩⟩

/-- A URC and an OK. -/
def shortAnswer : Answer (text "+P") 64 where
  items := [(.urc (text "+U"), text "\r")]
  final := .ok
  eols := text "\r"
  items_ok := by
    intro x hx
    rw [List.mem_singleton.1 hx]
    exact ⟨⟨rfl, rfl⟩, ⟨List.all_eq_true.1 rfl, by decide, by decide, List.all_eq_true.1 rfl⟩⟩
  final_ok := ⟨trivial, ⟨List.all_eq_true.1 rfl, by decide, by decide, List.all_eq_true.1 rfl⟩⟩

theorem long_urc : Room longAnswer.urcs (client 70000 70000).client.urcQueue ∧
    ¬Contract 0 id longAnswer ((client 70000 70000).cmdBeginF 0 0) (input longAnswer.bytes)
      [⟨none, none⟩] := by
  have hlines : longAnswer.urcLines = [longUrc] := rfl
  have hroom : Room longAnswer.urcs (client 70000 70000).client.urcQueue :=
    room_client length_longUrc (by decide)
  refine ⟨hroom, fun hc => ?_⟩
  have hall := urcs_short_client (by decide) (by decide) longAnswer hroom hc
  rw [hlines] at hall
  have hshort := hall longUrc (List.mem_singleton.2 rfl)
  rw [length_longUrc] at hshort
  exact absurd hshort (by decide)

theorem huge_urc_buffer : Room shortAnswer.urcs (client 64 2147483652).client.urcQueue ∧
    ¬Contract 0 id shortAnswer ((client 64 2147483652).cmdBeginF 0 0) (input shortAnswer.bytes)
      [⟨none, none⟩] := by
  refine ⟨room_client (k := 2) rfl (by decide), ?_⟩
  rintro ⟨s1, h1, calls, s2, h2, hlines, hend, hviews, -⟩
  have hrun : ((rspLines 0 (text "+P") [⟨none, none⟩] ((client 64 2147483652).cmdBeginF 0 0)
      (input shortAnswer.bytes)).bind fun x => x.2.1.cmdEnd 0 id x.2.2).map
      (fun y => y.1.calls.length) = some 0 := by decide +kernel
  rw [hlines, Option.bind_some, hend] at hrun
  have hlen := congrArg List.length hviews
  simp only [List.length_map] at hlen
  rw [Option.map_some, hlen] at hrun
  exact absurd hrun (by decide)

/-- The length of a URC of 65536 characters is not what the callback is told, and a URC buffer of
2^31 + 4 bytes has no room for a URC of two characters. -/
theorem contract_fails :
    (Ready (client 70000 70000).client ∧ Room longAnswer.urcs (client 70000 70000).client.urcQueue ∧
      Arrives ((client 70000 70000).cmdBeginF 0 0).client longAnswer.bytes (input longAnswer.bytes) ∧
      ¬Contract 0 id longAnswer ((client 70000 70000).cmdBeginF 0 0) (input longAnswer.bytes)
        [⟨none, none⟩]) ∧
    Ready (client 64 2147483652).client ∧
      Room shortAnswer.urcs (client 64 2147483652).client.urcQueue ∧
      Arrives ((client 64 2147483652).cmdBeginF 0 0).client shortAnswer.bytes
        (input shortAnswer.bytes) ∧
      ¬Contract 0 id shortAnswer ((client 64 2147483652).cmdBeginF 0 0) (input shortAnswer.bytes)
        [⟨none, none⟩] :=
  ⟨⟨ready_client _ _, long_urc.1, arrives_input _ _ _, long_urc.2⟩, ready_client _ _,
    huge_urc_buffer.1, arrives_input _ _ _, huge_urc_buffer.2⟩

end Transaction
