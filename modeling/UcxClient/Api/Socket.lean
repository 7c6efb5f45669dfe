import UcxClient.Api.Commands
import UcxClient.Client.Transaction

/-!
# The sockets (`src/ucx_api/generated/u_cx_socket.c`)

The functions of the file but for those that register a callback. A response that is stored in a structure is the
list of its values; an enumerator is its number.

`socket_session`: whatever is called in whatever order and whatever the module answers, the texts of the
commands go to the UART one behind the other, and a command only begins when the one before it has ended.
-/

namespace Api

section
variable (t : Nat) (edit : Callback)

def uCxSocketCreate1 (protocol : Int32) : Api (Int × List Arg) :=
  query t edit (text "AT+USOCR=") (text "d") [.int protocol] (text "+USOCR:") ⟨none, none⟩ (text "d")

def uCxSocketCreate2 (protocol prefIpVer : Int32) : Api (Int × List Arg) :=
  query t edit (text "AT+USOCR=") (text "dd") [.int protocol, .int prefIpVer] (text "+USOCR:") ⟨none, none⟩
    (text "d")

def uCxSocketSetTLS2 (socketHandle tlsVersion : Int32) : Api Int :=
  execSimpleCmdF t edit (text "AT+USOTLS=") (text "dd") [.int socketHandle, .int tlsVersion]

def uCxSocketSetTLS3 (socketHandle tlsVersion : Int32) (caName : CString) : Api Int :=
  execSimpleCmdF t edit (text "AT+USOTLS=") (text "dds") [.int socketHandle, .int tlsVersion, .str caName]

def uCxSocketSetTLS5 (socketHandle tlsVersion : Int32) (caName clientCertName clientKeyName : CString) : Api Int :=
  execSimpleCmdF t edit (text "AT+USOTLS=") (text "ddsss")
    [.int socketHandle, .int tlsVersion, .str caName, .str clientCertName, .str clientKeyName]

def uCxSocketGetTLSBegin (socketHandle : Int32) : Api (Bool × List Arg) :=
  queryBegin t (text "AT+USOTLS=") (text "d") [.int socketHandle] (text "+USOTLS:") (text "ddsss")

def uCxSocketConnect (socketHandle : Int32) (hostAddress : CString) (remotePort : Int32) : Api Int :=
  execSimpleCmdF t edit (text "AT+USOC=") (text "dsd") [.int socketHandle, .str hostAddress, .int remotePort]

def uCxSocketSetReadMode (readMode : Int32) : Api Int :=
  execSimpleCmdF t edit (text "AT+USORM=") (text "d") [.int readMode]

def uCxSocketGetReadMode : Api (Int × List Arg) :=
  query t edit (text "AT+USORM?") (text "") [] (text "+USORM:") ⟨none, none⟩ (text "d")

/-- The value of `written_length`, if it has been assigned. -/
def writtenLength : List Arg → Option Int
  | [.int i] => some i.toInt
  | _ => none

def uCxSocketWrite (socketHandle : Int32) (binaryData : List UInt8) : Api Int := do
  let (ret, values) ← query t edit (text "AT+USOWB=") (text "dB") [.int socketHandle, .binary binaryData]
    (text "+USOWB:") ⟨none, none⟩ (text "-d")
  if 0 ≤ ret then StateT.lift (writtenLength values) else return ret

def uCxSocketClose (socketHandle : Int32) : Api Int :=
  execSimpleCmdF t edit (text "AT+USOCL=") (text "d") [.int socketHandle]

/-- The conversion of a length to `uint16_t`. -/
def toUInt16 (length : Int32) : Nat := (length.toInt % 65536).toNat

/-- `binBufferLen = (uint16_t)length`, for the variable with that number. -/
def setBinBufferLen (binBufferLen : Nat) (length : Int32) : Api PUnit := fun sys =>
  some ((), { sys with
    state := { sys.state with mem := sys.state.mem.setLength (some binBufferLen) (toUInt16 length) } })

/-- `(int32_t)binBufferLen` -/
def getBinBufferLen (binBufferLen : Nat) : Api Int := fun sys => some (sys.state.mem.length binBufferLen, sys)

/-- The functions that read into a buffer: `binBufferLen` is the number of their local variable. -/
def readBinary (pCmd : List UInt8) (args : List Arg) (pExpectedRsp rspFmt : List UInt8) (binBufferLen : Nat)
    (length : Int32) (pDataBuf : Option Nat) : Api (Int × List Arg) := do
  setBinBufferLen binBufferLen length
  let (ret, values) ← query t edit pCmd (text "dd") args pExpectedRsp ⟨pDataBuf, some binBufferLen⟩ rspFmt
  if 0 ≤ ret then
    let ret ← getBinBufferLen binBufferLen
    return (ret, values)
  else return (ret, values)

def uCxSocketRead (binBufferLen : Nat) (socketHandle length : Int32) (pDataBuf : Option Nat) :
    Api (Int × List Arg) :=
  readBinary t edit (text "AT+USORB=") [.int socketHandle, .int length] (text "+USORB:") (text "-") binBufferLen
    length pDataBuf

def uCxSocketGetLastError : Api (Int × List Arg) :=
  query t edit (text "AT+USOE") (text "") [] (text "+USOE:") ⟨none, none⟩ (text "d")

def uCxSocketBind (socketHandle localPort : Int32) : Api Int :=
  execSimpleCmdF t edit (text "AT+USOB=") (text "dd") [.int socketHandle, .int localPort]

def uCxSocketListen1 (socketHandle : Int32) : Api Int :=
  execSimpleCmdF t edit (text "AT+USOL=") (text "d") [.int socketHandle]

def uCxSocketListen2 (socketHandle port : Int32) : Api Int :=
  execSimpleCmdF t edit (text "AT+USOL=") (text "dd") [.int socketHandle, .int port]

def uCxSocketReceiveFrom (binBufferLen : Nat) (socketHandle length : Int32) (pDataBuf : Option Nat) :
    Api (Int × List Arg) :=
  readBinary t edit (text "AT+USORFB=") [.int socketHandle, .int length] (text "+USORFB:") (text "-id") binBufferLen
    length pDataBuf

def uCxSocketGetPeerAddress (socketHandle : Int32) : Api (Int × List Arg) :=
  query t edit (text "AT+USOPA=") (text "d") [.int socketHandle] (text "+USOPA:") ⟨none, none⟩ (text "-id")

def uCxSocketListStatusBegin : Api PUnit := cmdBeginF t (text "AT+USOST?") (text "") []

def uCxSocketListStatusGetNext : Api (Bool × List Arg) := getNext t (text "+USOST:") (text "ddd")

def uCxSocketGetStatus (socketHandle : Int32) : Api (Int × List Arg) :=
  query t edit (text "AT+USOST=") (text "d") [.int socketHandle] (text "+USOST:") ⟨none, none⟩ (text "-dd")

def uCxSocketSetOption (socketHandle option value : Int32) : Api Int :=
  execSimpleCmdF t edit (text "AT+USOO=") (text "ddd") [.int socketHandle, .int option, .int value]

def uCxSocketGetOption (socketHandle option : Int32) : Api (Int × List Arg) :=
  query t edit (text "AT+USOO=") (text "dd") [.int socketHandle, .int option] (text "+USOO:") ⟨none, none⟩
    (text "--d")

def uCxSocketGetHostByName (hostName : CString) : Api (Int × List Arg) :=
  query t edit (text "AT+USOH=") (text "s") [.str hostName] (text "+USOH:") ⟨none, none⟩ (text "i")

end

/-! ## The calls of an application -/

/-- The functions that return the values of one response. -/
inductive SocketQuery where
  | create1 (protocol : Int32)
  | create2 (protocol prefIpVer : Int32)
  | getReadMode
  | getLastError
  | getPeerAddress (socketHandle : Int32)
  | getStatus (socketHandle : Int32)
  | getOption (socketHandle option : Int32)
  | getHostByName (hostName : CString)

namespace SocketQuery

def run (t : Nat) (edit : Callback) : SocketQuery → Api (Int × List Arg)
  | create1 protocol => uCxSocketCreate1 t edit protocol
  | create2 protocol prefIpVer => uCxSocketCreate2 t edit protocol prefIpVer
  | getReadMode => uCxSocketGetReadMode t edit
  | getLastError => uCxSocketGetLastError t edit
  | getPeerAddress h => uCxSocketGetPeerAddress t edit h
  | getStatus h => uCxSocketGetStatus t edit h
  | getOption h option => uCxSocketGetOption t edit h option
  | getHostByName host => uCxSocketGetHostByName t edit host

/-- The command, its format and its arguments. -/
def command : SocketQuery → List UInt8 × List UInt8 × List Arg
  | create1 protocol => (text "AT+USOCR=", text "d", [.int protocol])
  | create2 protocol prefIpVer => (text "AT+USOCR=", text "dd", [.int protocol, .int prefIpVer])
  | getReadMode => (text "AT+USORM?", text "", [])
  | getLastError => (text "AT+USOE", text "", [])
  | getPeerAddress h => (text "AT+USOPA=", text "d", [.int h])
  | getStatus h => (text "AT+USOST=", text "d", [.int h])
  | getOption h option => (text "AT+USOO=", text "dd", [.int h, .int option])
  | getHostByName host => (text "AT+USOH=", text "s", [.str host])

def pExpectedRsp : SocketQuery → List UInt8
  | create1 _ => text "+USOCR:"
  | create2 _ _ => text "+USOCR:"
  | getReadMode => text "+USORM:"
  | getLastError => text "+USOE:"
  | getPeerAddress _ => text "+USOPA:"
  | getStatus _ => text "+USOST:"
  | getOption _ _ => text "+USOO:"
  | getHostByName _ => text "+USOH:"

def rspFmt : SocketQuery → List UInt8
  | create1 _ => text "d"
  | create2 _ _ => text "d"
  | getReadMode => text "d"
  | getLastError => text "d"
  | getPeerAddress _ => text "-id"
  | getStatus _ => text "-dd"
  | getOption _ _ => text "--d"
  | getHostByName _ => text "i"

/-- What is written to the UART. -/
def bytes (q : SocketQuery) : List UInt8 := cmdBytes q.command.1 q.command.2.1 q.command.2.2

theorem run_eq (t : Nat) (edit : Callback) (q : SocketQuery) : q.run t edit =
    query t edit q.command.1 q.command.2.1 q.command.2.2 q.pExpectedRsp ⟨none, none⟩ q.rspFmt := by
  cases q <;> rfl

end SocketQuery

/-- A call of one of the functions, or of `uCxEnd`. -/
inductive SocketCall where
  | query (q : SocketQuery)
  | setTLS2 (socketHandle tlsVersion : Int32)
  | setTLS3 (socketHandle tlsVersion : Int32) (caName : CString)
  | setTLS5 (socketHandle tlsVersion : Int32) (caName clientCertName clientKeyName : CString)
  | getTLSBegin (socketHandle : Int32)
  | connect (socketHandle : Int32) (hostAddress : CString) (remotePort : Int32)
  | setReadMode (readMode : Int32)
  | write (socketHandle : Int32) (binaryData : List UInt8)
  | close (socketHandle : Int32)
  | read (binBufferLen : Nat) (socketHandle length : Int32) (pDataBuf : Option Nat)
  | bind (socketHandle localPort : Int32)
  | listen1 (socketHandle : Int32)
  | listen2 (socketHandle port : Int32)
  | receiveFrom (binBufferLen : Nat) (socketHandle length : Int32) (pDataBuf : Option Nat)
  | listStatusBegin
  | listStatusGetNext
  | setOption (socketHandle option value : Int32)
  | uCxEnd

/-- A call whose result is not looked at. -/
def ignore {α : Type} (c : Api α) : Api PUnit := do
  let _ ← c

namespace SocketCall

def run (t : Nat) (edit : Callback) : SocketCall → Api PUnit
  | query q => ignore (q.run t edit)
  | setTLS2 h v => ignore (uCxSocketSetTLS2 t edit h v)
  | setTLS3 h v ca => ignore (uCxSocketSetTLS3 t edit h v ca)
  | setTLS5 h v ca cert key => ignore (uCxSocketSetTLS5 t edit h v ca cert key)
  | getTLSBegin h => ignore (uCxSocketGetTLSBegin t h)
  | connect h host port => ignore (uCxSocketConnect t edit h host port)
  | setReadMode mode => ignore (uCxSocketSetReadMode t edit mode)
  | write h data => ignore (uCxSocketWrite t edit h data)
  | close h => ignore (uCxSocketClose t edit h)
  | read v h length buf => ignore (uCxSocketRead t edit v h length buf)
  | bind h port => ignore (uCxSocketBind t edit h port)
  | listen1 h => ignore (uCxSocketListen1 t edit h)
  | listen2 h port => ignore (uCxSocketListen2 t edit h port)
  | receiveFrom v h length buf => ignore (uCxSocketReceiveFrom t edit v h length buf)
  | listStatusBegin => uCxSocketListStatusBegin t
  | listStatusGetNext => ignore (uCxSocketListStatusGetNext t)
  | setOption h option value => ignore (uCxSocketSetOption t edit h option value)
  | uCxEnd => ignore (Api.uCxEnd t edit)

def effect : SocketCall → Effect
  | getTLSBegin _ => .begins
  | listStatusBegin => .begins
  | listStatusGetNext => .reads
  | uCxEnd => .ends
  | _ => .whole

/-- What a call writes to the UART. -/
def bytes : SocketCall → List UInt8
  | query q => q.bytes
  | setTLS2 h v => cmdBytes (text "AT+USOTLS=") (text "dd") [.int h, .int v]
  | setTLS3 h v ca => cmdBytes (text "AT+USOTLS=") (text "dds") [.int h, .int v, .str ca]
  | setTLS5 h v ca cert key =>
    cmdBytes (text "AT+USOTLS=") (text "ddsss") [.int h, .int v, .str ca, .str cert, .str key]
  | getTLSBegin h => cmdBytes (text "AT+USOTLS=") (text "d") [.int h]
  | connect h host port => cmdBytes (text "AT+USOC=") (text "dsd") [.int h, .str host, .int port]
  | setReadMode mode => cmdBytes (text "AT+USORM=") (text "d") [.int mode]
  | write h data => cmdBytes (text "AT+USOWB=") (text "dB") [.int h, .binary data]
  | close h => cmdBytes (text "AT+USOCL=") (text "d") [.int h]
  | read _ h length _ => cmdBytes (text "AT+USORB=") (text "dd") [.int h, .int length]
  | bind h port => cmdBytes (text "AT+USOB=") (text "dd") [.int h, .int port]
  | listen1 h => cmdBytes (text "AT+USOL=") (text "d") [.int h]
  | listen2 h port => cmdBytes (text "AT+USOL=") (text "dd") [.int h, .int port]
  | receiveFrom _ h length _ => cmdBytes (text "AT+USORFB=") (text "dd") [.int h, .int length]
  | listStatusBegin => cmdBytes (text "AT+USOST?") (text "") []
  | listStatusGetNext => []
  | setOption h option value => cmdBytes (text "AT+USOO=") (text "ddd") [.int h, .int option, .int value]
  | uCxEnd => []

end SocketCall

section
variable {t : Nat} {edit : Callback} {m : Mutex}

theorem Does.ignore {α : Type} {c : Api α} {e : Effect} {w : List UInt8} (h : Does t m e w c) :
    Does t m e w (ignore c) := h.bind_pure fun _ => PUnit.unit

theorem uCxSocketWrite_does (hm : m.Free) (socketHandle : Int32) (binaryData : List UInt8) :
    Does t m .whole (cmdBytes (text "AT+USOWB=") (text "dB") [.int socketHandle, .binary binaryData])
      (uCxSocketWrite t edit socketHandle binaryData) := by
  refine (query_does hm _ _ _ _ _ _).reads fun (ret, values) => ?_
  dsimp only
  split
  · cases writtenLength values with
    | none => exact does_failure _ _
    | some i => exact .pure i
  · exact .pure ret

theorem readBinary_does (hm : m.Free) (pCmd : List UInt8) (args : List Arg) (pExpectedRsp rspFmt : List UInt8)
    (binBufferLen : Nat) (length : Int32) (pDataBuf : Option Nat) :
    Does t m .whole (cmdBytes pCmd (text "dd") args)
      (readBinary t edit pCmd args pExpectedRsp rspFmt binBufferLen length pDataBuf) := by
  have hset : Does t m .reads [] (setBinBufferLen binBufferLen length) := by
    refine Does.of_keeps fun b m' w sys hsys a sys' hrun => ?_
    cases hrun
    exact ⟨hsys.executingCmd, hsys.cmdMutex, hsys.sent⟩
  have hget : Does t m .reads [] (getBinBufferLen binBufferLen) := by
    refine Does.of_keeps fun b m' w sys hsys a sys' hrun => ?_
    cases hrun
    exact hsys
  have hread : Does t m .whole (cmdBytes pCmd (text "dd") args) (do
      let (ret, values) ← query t edit pCmd (text "dd") args pExpectedRsp ⟨pDataBuf, some binBufferLen⟩ rspFmt
      if 0 ≤ ret then
        let ret ← getBinBufferLen binBufferLen
        return (ret, values)
      else return (ret, values)) := by
    refine (query_does hm _ _ _ _ _ _).reads fun (ret, values) => ?_
    dsimp only
    split
    · exact hget.bind_pure fun ret => (ret, values)
    · exact .pure _
  exact hset.seq (fun _ => hread) fun _ => rfl

/-- What each call does with the command. -/
theorem SocketCall.run_does (hm : m.Free) (call : SocketCall) :
    Does t m call.effect call.bytes (call.run t edit) := by
  cases call with
  | setTLS2 | setTLS3 | setTLS5 | connect | setReadMode | close | bind | listen1 | listen2 | setOption =>
    exact (execSimpleCmdF_does hm _ _ _).ignore
  | query q =>
    rw [SocketCall.run, SocketQuery.run_eq]
    exact (query_does hm _ _ _ _ _ _).ignore
  | getTLSBegin => exact (queryBegin_does _ _ _ _ _).ignore
  | write h data => exact (uCxSocketWrite_does hm h data).ignore
  | read | receiveFrom => exact (readBinary_does hm _ _ _ _ _ _ _).ignore
  | listStatusBegin => exact cmdBeginF_does t m _ _ _
  | listStatusGetNext => exact (getNext_does _ _).ignore
  | uCxEnd => exact (cmdEnd_does hm).ignore

/-- **The commands of a session never overlap.** Whatever the module sends and however the calls are ordered,
when they all return, every command has begun behind the end of the one before it, `uCxEnd` has only been called
while a command was open, the texts of the commands have been written one behind the other and nothing else has, and
`cmdMutex` is as it was unless the last command is still open. -/
theorem socket_session {sys sys' : ApiSys} (hfree : sys.state.client.cmdMutex.Free)
    (hidle : sys.state.client.executingCmd = false) {calls : List SocketCall}
    (hrun : (calls.forM (SocketCall.run t edit)).run sys = some ((), sys')) :
    calls.foldlM (fun b call => call.effect.next b) false = some sys'.state.client.executingCmd ∧
    sys'.sent = sys.sent ++ calls.flatMap SocketCall.bytes ∧
    sys'.state.client.cmdMutex =
      if sys'.state.client.executingCmd then sys.state.client.cmdMutex.lock t else sys.state.client.cmdMutex := by
  obtain ⟨b, hcalls, hsys⟩ := Does.forM (SocketCall.run_does hfree) calls false sys.sent sys ⟨hidle, rfl, rfl⟩
    _ _ hrun
  rw [hsys.executingCmd]
  exact ⟨hcalls, hsys.sent, hsys.cmdMutex⟩

end

/-- A client that has sent nothing yet, for the input `bs`. -/
def fresh (bs : List UInt8) : ApiSys :=
  ⟨Transaction.client 64 64, ⟨⟨bs, bs.map fun _ => .avail 1⟩, List.replicate (2 * bs.length + 1) 0⟩, [], []⟩

/-- A socket is created, and the sockets are listed. -/
theorem socket_session_list : ∃ sys', ([.query (.create1 6), .listStatusBegin, .listStatusGetNext,
      .listStatusGetNext, .uCxEnd].forM (SocketCall.run 0 id)).run
        (fresh (text "+USOCR:0\rOK\r+USOST:0,6,1\rOK\r")) = some ((), sys') ∧
    some sys'.state.client.executingCmd = some false ∧ sys'.sent = text "AT+USOCR=6\rAT+USOST?\r" := by
  obtain ⟨⟨⟨⟩, sys'⟩, hrun, hsent⟩ := Option.map_eq_some_iff.1 (show (([.query (.create1 6), .listStatusBegin,
      .listStatusGetNext, .listStatusGetNext, .uCxEnd].forM (SocketCall.run 0 id)).run
        (fresh (text "+USOCR:0\rOK\r+USOST:0,6,1\rOK\r"))).map (fun x => x.2.sent) =
      some (text "AT+USOCR=6\rAT+USOST?\r") by decide +kernel)
  have hsession := socket_session (show (fresh _).state.client.cmdMutex.Free from ⟨rfl, rfl⟩) rfl hrun
  exact ⟨sys', hrun, hsession.1.symm, hsent⟩

end Api
