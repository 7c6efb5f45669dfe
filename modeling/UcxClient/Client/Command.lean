import UcxClient.Client.Receive

/-!
# Commands (`src/u_cx_at_client.c`)

The parts of `cmdBeginF`, `uCxAtClientCmdGetRspParamLine` and `cmdEnd` between two points at which
another thread can run. What `cmdBeginF` writes to the UART changes no field of the client.
-/

namespace AtClient

/-- `cmdBeginF` behind the lock of `cmdMutex`; `now` is the clock reading. -/
def beginCmd (c : AtClient) (now : Int) : AtClient :=
  { c with pRspParams := none, executingCmd := true, status := noStatus, cmdStartTime := now }

/-- The assignments at the start of `uCxAtClientCmdGetRspParamLine`. -/
def expectRsp (c : AtClient) (pExpectedRsp : Option (List UInt8))
    (pBinaryBuf pBinaryBufLength : Option Nat) : AtClient :=
  { c with
    rspBinaryBuf := ⟨pBinaryBuf, pBinaryBufLength⟩, pRspParams := none, pExpectedRsp }

/-- `(now - pClient->cmdStartTime) > pClient->cmdTimeout` -/
def timedOut (c : AtClient) (now : Int) : Bool := c.cmdTimeout < toInt32 (now - c.cmdStartTime)

/-- The loop of `cmdEnd` behind the call of `handleRxData`: whether it is left. -/
def cmdEndCheck (c : AtClient) (now : Int) : AtClient × Bool :=
  if c.timedOut now then ({ c with status := errorCmdTimeout }, true)
  else (c, c.status != noStatus)

/-- `cmdEnd` from the end of the loop up to the unlock of `cmdMutex`. -/
def finishCmd (t : Nat) (c : AtClient) : AtClient :=
  { c with
    cmdTimeout := c.cmdTimeoutLastPerm, executingCmd := false, cmdMutex := c.cmdMutex.unlock t }

def setCommandTimeout (c : AtClient) (timeoutMs : Int) (permanent : Bool) : AtClient :=
  { c with
    cmdTimeout := timeoutMs
    cmdTimeoutLastPerm := if permanent then timeoutMs else c.cmdTimeoutLastPerm }

end AtClient
