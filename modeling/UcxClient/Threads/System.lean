import Mathlib.Logic.Function.Basic
import UcxClient.Client.Command
import UcxClient.Lib.Transition

/-!
# The client under concurrent use

`Sys` is a client used by any number of threads. A thread is a stack of calls: an application calls
`uCxAtClientCmdBeginF`, `uCxAtClientCmdGetRspParamLine`, `uCxAtClientCmdEnd`, `uCxAtClientHandleRx`
and the setters in any order, and a URC callback may do the same from inside `processUrcs`. A call
of `uCxAtClientExecSimpleCmdF` is a `cmdBeginF` followed by a `cmdEnd` of the same thread.

One step is what a thread does between two points at which another thread can run. A step that would
have to wait for a mutex cannot be taken. The result of a read comes with the clock reading that
follows it, which is looked at only if `handleRxData` returns. `uCxAtClientCmdBeginF` is only called
while no command is executing, as its assertion demands.
-/

/-- Where a thread is in `processUrcs`. -/
inductive UrcPc where
  /-- before `uCxAtUrcQueueDequeueBegin` -/
  | start
  /-- in `uCxAtUrcQueueDequeueBegin`, `dequeueMutex` locked, before `queueMutex` is locked -/
  | locked
  /-- in `uCxAtUrcQueueDequeueBegin`, after `queueMutex` was unlocked -/
  | checked (pEntry : Option Nat)
  /-- in the URC callback -/
  | callback (pEntry : Nat)
  /-- before `uCxAtUrcQueueDequeueEnd` -/
  | called (pEntry : Nat)
  /-- in `uCxAtUrcQueueDequeueEnd`, after `queueMutex` was unlocked -/
  | popped
  /-- after the loop -/
  | done
  deriving DecidableEq

/-- A call that a thread is in. -/
inductive Frame where
  /-- between `cmdBeginF` and `cmdEnd`; `pRet` is what `uCxAtClientCmdGetRspParamLine` returned -/
  | cmd (pRet : Option (List UInt8))
  /-- in the `handleRxData` of `uCxAtClientCmdGetRspParamLine` -/
  | getRsp
  /-- in the `handleRxData` of `cmdEnd` -/
  | cmdEnd
  /-- in the `handleRxData` of `uCxAtClientHandleRx` -/
  | handleRx
  /-- in `processUrcs`, called by a `cmdEnd` that recorded `status`, or by `uCxAtClientHandleRx` -/
  | urcs (status : Option Int) (pc : UrcPc)
  deriving DecidableEq

structure Sys where
  st : AtState
  threads : Nat → List Frame
  /-- the buffers and length variables passed to the command that is executing -/
  passed : List BinaryResponseBuf

namespace Sys

open UrcQueue AtState

inductive Act where
  | cmdBeginF (now : Int)
  | getRspParamLine (pExpectedRsp : Option (List UInt8)) (buf : BinaryResponseBuf)
  | cmdEnd
  | handleRx
  | setCommandTimeout (timeoutMs : Int) (permanent : Bool)
  | setUrcCallback (urcCallback : Bool)
  | clientOpen
  | clientClose
  /-- an application changes memory of its own -/
  | writeMem (mem : CallerMem)
  /-- a URC callback changes a data byte of its entry -/
  | writeEntry (i : Nat) (b : UInt8)
  | callbackReturn
  | read (r : ReadStatus) (now : Int)
  /-- the next step in `processUrcs` -/
  | next

def init (reentrant : Bool) (rxBufferLen : Nat) (pUrcBuffer : List UInt8) (mem : CallerMem) :
    Sys where
  st := ⟨uCxAtClientInit reentrant rxBufferLen pUrcBuffer, mem, (0, 0)⟩
  threads := fun _ => []
  passed := []

/-- The thread runs code of an application or of a URC callback. -/
def userCode : List Frame → Bool
  | [] | .cmd _ :: _ | .urcs _ (.callback _) :: _ => true
  | _ => false

/-- Change the client and the stack of thread `t`. -/
def set (s : Sys) (t : Nat) (client : AtClient) (fs : List Frame) : Sys :=
  { s with st := { s.st with client }, threads := Function.update s.threads t fs }

/-- `cmdEnd` behind its loop, where it has the client `c`. -/
def leaveCmdEnd (s : Sys) (t : Nat) (c : AtClient) (fs : List Frame) : Sys :=
  { s.set t (c.finishCmd t) (.urcs (some c.status) .start :: fs) with passed := [] }

/-- A read returned to `handleRxData`, called from the function on top of the stack. -/
def afterRead (s : Sys) (t : Nat) (ret : Option ParserCode) (now : Int) : Sys :=
  let c := s.st.client
  match ret, s.threads t with
  | none, _ => s
  | some _, .handleRx :: fs =>
    s.set t { c with cmdMutex := c.cmdMutex.unlock t } (.urcs none .start :: fs)
  | some ret, .getRsp :: .cmd _ :: fs =>
    if ret = .gotRsp then s.set t c (.cmd c.pRspParams :: fs)
    else if c.timedOut now ∨ c.status ≠ noStatus then s.set t c (.cmd none :: fs)
    else s
  | some _, .cmdEnd :: fs =>
    let (c, leave) := c.cmdEndCheck now
    if leave then s.leaveCmdEnd t c fs else s
  | _, _ => s

/-- The thread is in `handleRxData`. -/
def inRx : List Frame → Bool
  | .getRsp :: _ | .cmdEnd :: _ | .handleRx :: _ => true
  | _ => false

/-- The bytes of a read that asks for `length` bytes. -/
def ReadStatus.fits (length : Nat) : ReadStatus → Bool
  | .failed _ => true
  | .got bytes => bytes.length ≤ length

/-- The steps of `processUrcs`. -/
def urcStep (s : Sys) (t : Nat) (k : Option Int) (fs : List Frame) : UrcPc → Option Sys :=
  let c := s.st.client
  let goto (urcQueue : UrcQueue) (pc : UrcPc) := s.set t { c with urcQueue } (.urcs k pc :: fs)
  fun
  | .start =>
    let (locked, q) := tryLockDequeue t c.urcQueue
    some (goto q (if locked then .locked else .done))
  | .locked =>
    if c.urcQueue.queueMutex.available t then
      some (goto c.urcQueue (.checked c.urcQueue.peekEntry))
    else none
  | .checked none => some (goto (handEntry t c.urcQueue none) .done)
  | .checked (some pEntry) =>
    some (goto (handEntry t c.urcQueue (some pEntry))
      (if c.urcCallback then .callback pEntry else .called pEntry))
  | .callback _ => none
  | .called pEntry =>
    if c.urcQueue.queueMutex.available t then some (goto (c.urcQueue.popEntry pEntry) .popped)
    else none
  | .popped => some (goto (releaseDequeue t c.urcQueue) .start)
  | .done => some (s.set t c fs)

/-- One step of thread `t`. -/
def step (s : Sys) (ta : Nat × Act) : Option Sys :=
  let t := ta.1
  let c := s.st.client
  let user (client : AtClient) :=
    if userCode (s.threads t) then some (s.set t client (s.threads t)) else none
  match ta.2 with
  | .cmdBeginF now =>
    if userCode (s.threads t) ∧ c.cmdMutex.available t ∧ ¬c.executingCmd then
      some { s.set t ({ c with cmdMutex := c.cmdMutex.lock t }.beginCmd now)
        (.cmd none :: s.threads t) with passed := [] }
    else none
  | .getRspParamLine pExpectedRsp buf =>
    match s.threads t with
    | .cmd _ :: fs =>
      let c := c.expectRsp pExpectedRsp buf.pBuffer buf.pBufferLength
      let top := if c.status = noStatus then [Frame.getRsp, .cmd none] else [.cmd none]
      some { s.set t c (top ++ fs) with passed := buf :: s.passed }
    | _ => none
  | .cmdEnd =>
    match s.threads t with
    | .cmd _ :: fs =>
      if c.status = noStatus then some (s.set t c (.cmdEnd :: fs))
      else some (s.leaveCmdEnd t c fs)
    | _ => none
  | .handleRx =>
    if userCode (s.threads t) then
      if !c.opened then some s
      else if c.cmdMutex.available t then
        if c.executingCmd then
          some (s.set t { c with cmdMutex := (c.cmdMutex.lock t).unlock t }
            (.urcs none .start :: s.threads t))
        else
          some (s.set t { c with cmdMutex := c.cmdMutex.lock t } (.handleRx :: s.threads t))
      else none
    else none
  | .setCommandTimeout timeoutMs permanent => user (c.setCommandTimeout timeoutMs permanent)
  | .setUrcCallback urcCallback => user { c with urcCallback }
  | .clientOpen => user { c with opened := true }
  | .clientClose => user { c with opened := false }
  | .writeMem mem =>
    if userCode (s.threads t) then some { s with st := { s.st with mem } } else none
  | .writeEntry i b =>
    match s.threads t with
    | .urcs _ (.callback pEntry) :: _ =>
      if i < c.urcQueue.entrySize pEntry then
        user { c with urcQueue := { c.urcQueue with
          pBuffer := ByteMem.store c.urcQueue.pBuffer (pEntry + sizeofUrcEntry + i) [b] } }
      else none
    | _ => none
  | .callbackReturn =>
    match s.threads t with
    | .urcs k (.callback pEntry) :: fs => some (s.set t c (.urcs k (.called pEntry) :: fs))
    | _ => none
  | .read r now =>
    if inRx (s.threads t) ∧ ReadStatus.fits s.st.wants r then
      let (st, ret) := s.st.rxStep t r
      if st.client.urcQueue.queueMutex.blocked then none
      else some (({ s with st } : Sys).afterRead t ret now)
    else none
  | .next =>
    match s.threads t with
    | .urcs k pc :: fs => s.urcStep t k fs pc
    | _ => none

end Sys
