import Veo.Lib.Bytes
import Veo.Lib.Memory
import Veo.CallArgs.Argument
import Veo.CallArgs.Basic
import Veo.CallArgs.Frame
import Veo.CallArgs.Layout
import Veo.CallArgs.Transfer
import Veo.Exception.Basic
import Veo.Exception.Handler
import Veo.Call
import Veo.Handlers
import Veo.Handlers.Effects
import Veo.Command
import Veo.Lib.Pipeline
import Veo.Lib.Transition
import Veo.ThreadContext.Basic
import Veo.ThreadContext.Steps
import Veo.ThreadContext.Invariant
import Veo.ThreadContext.Conservation
import Veo.ThreadContext.EventLoop
import Veo.ThreadContext.StackPointer
import Veo.ThreadContext.Close
import Veo.ThreadContext.Internal
import Veo.CallArgs.Words
import Veo.CallArgs.Reuse
import Veo.Handlers.Transfers
import Veo.Handlers.Hooks
import Veo.Handlers.Throws
import Veo.Handlers.Failures
import Veo.ThreadContext.Exceptions
import Veo.ThreadContext.Collect
import Veo.ThreadContext.ReadMem
import Veo.ThreadContext.Peek
import Veo.ProcHandle.Basic
import Veo.ProcHandle.Symbols
import Veo.Lib.Text
import Veo.ProcHandle.Create
import Veo.ProcHandle.Node
import Veo.CallArgs.Setters
import Veo.ThreadContext.Unset
import Veo.ProcHandle.LoadError
import Veo.Command.Monitor
import Veo.ThreadContext.Handshake
import Veo.ThreadContext.Progress
import Veo.ThreadContext.Exit
import Veo.ProcHandle.Construct
import Veo.ThreadContext.Claim
import Veo.ThreadContext.DataFlow
import Veo.ThreadContext.Quiescence
import Veo.Lib.Buffer
import Veo.ProcHandle.EnvArray
import Veo.ProcHandle.HelperCalls
import Veo.ProcHandle.OpenContext
import Veo.ThreadContext.Destroy
import Veo.Lib.Ledger
import Veo.ProcHandle.Heap
import Veo.ProcHandle.HeapLedger
import Veo.ProcHandle.Lookup
