import UcxClient.Lib.Bytes
import UcxClient.Lib.CInt
import UcxClient.Lib.Fifo
import UcxClient.Lib.Mutex
import UcxClient.Lib.Transition
import UcxClient.Queue.Defs
import UcxClient.Queue.Layout
import UcxClient.Queue.System
import UcxClient.Queue.Refine
import UcxClient.Client.Receive
import UcxClient.Client.Command
import UcxClient.Threads.System
import UcxClient.Client.RxEffect
import UcxClient.Client.RxFacts
import UcxClient.Threads.Effect
import UcxClient.Threads.Ownership
import UcxClient.Threads.Status
import UcxClient.Threads.Waiting
import UcxClient.Threads.QueueLock
import UcxClient.Threads.RspBuffer
import UcxClient.Client.Calls
import UcxClient.Client.Leftover
import UcxClient.Client.Alike
import UcxClient.Lib.Machine
import UcxClient.Client.ByteWise
import UcxClient.Client.Delivery
import UcxClient.Client.Lines
import UcxClient.Client.Transaction
import UcxClient.Lib.Shared
import UcxClient.Threads.Pair
import UcxClient.Client.FinalStatus
import UcxClient.Queue.Assertions
import UcxClient.Client.RxQueue
import UcxClient.Threads.Handed
import UcxClient.Threads.Stranded
import UcxClient.Client.RxBounds
import UcxClient.Threads.Receiver
import UcxClient.Client.Twin
import UcxClient.Threads.Reopen
import UcxClient.Xmodem.Defs
import UcxClient.Xmodem.Trace
import UcxClient.Lib.Blocks
import UcxClient.Xmodem.Reassembly
import UcxClient.Xmodem.Link
import UcxClient.Xmodem.Agreement
import UcxClient.Text.Params
import UcxClient.Text.Parse
import UcxClient.Text.Send
import UcxClient.Text.Numerals
import UcxClient.Text.Args
import UcxClient.Text.Injection
import UcxClient.Text.RoundTrip
import UcxClient.Client.RspParams
import UcxClient.Text.Reference
import UcxClient.Text.Decode
import UcxClient.Text.Strict
import UcxClient.Text.Framing
import UcxClient.Client.Overlong
import UcxClient.Client.Wait
import UcxClient.Client.Echo
import UcxClient.Client.Awaited
import UcxClient.Client.Capture
import UcxClient.Client.UrcRoom
import UcxClient.Client.UrcStream
import UcxClient.Client.UrcHandling
import UcxClient.Client.NoQueue
import UcxClient.Client.Configurations
import UcxClient.Threads.RxInCommand
import UcxClient.Port.Clock
import UcxClient.Client.Timeouts
import UcxClient.Xmodem.Pause
import UcxClient.Lib.Crc
import UcxClient.Xmodem.Crc
import UcxClient.Xmodem.Ordering
import UcxClient.Xmodem.Unfinished
import UcxClient.Xmodem.Progress
import UcxClient.Lib.Separated
import UcxClient.Lib.Strtol
import UcxClient.Text.IpAddress
import UcxClient.Text.BdAddress
import UcxClient.Text.IntList
import UcxClient.Text.IntListText
import UcxClient.Text.Reparse
import UcxClient.Lib.Access
import UcxClient.Text.EscBuffer
import UcxClient.Text.Accesses
import UcxClient.Text.Frame
import UcxClient.Text.HexBinary
import UcxClient.Port.RxTask
import UcxClient.Lib.RingBuffer
import UcxClient.Port.ZephyrUart
import UcxClient.Port.ZephyrRx
import UcxClient.Api.Urc
import UcxClient.Api.UrcCallbacks
import UcxClient.Api.Commands
import UcxClient.Api.Socket
import UcxClient.Api.Answers
import UcxClient.Client.BinaryAnswer
import UcxClient.Api.SocketRead
import UcxClient.Api.Syntaxes
import UcxClient.Port.UartWrite
