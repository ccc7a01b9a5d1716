-- SUMMARY: Exceptions of a VE thread: the system call filters, the handling of one exception, and the exception handler loop.
import Veo.CallArgs.Basic
import Mathlib.Logic.Function.Basic

/-!
# The exception handler

A pseudo thread waits for exceptions of its VE thread and answers the system calls
among them until a filter or an error breaks the loop. The results of the driver calls
are a stream; what the pseudo thread sends to VE OS is recorded in order.
-/

namespace Veo

/-! ## The platform

Numbers and masks that come from headers of the driver and of VE OS. -/

/-- The system calls that the library names, apart from `sysve`. -/
inductive Syscall where
  | rtSigaction | rtSigreturn | fork | vfork | execve | exit | wait4 | rtSigpending
  | rtSigtimedwait | rtSigsuspend | sigaltstack | exitGroup | signalfd | signalfd4 | clone
deriving DecidableEq, Repr

structure Platform where
  /-- The system call numbers of `ve_syscall_no.h`. -/
  nr : Syscall → Int
  nrGt : ∀ c, 1 < nr c
  nrInjective : Function.Injective nr
  nrNeSysve : ∀ c, nr c ≠ nrSysve
  /-- The bits of the EXS register. -/
  exsMonc : BitVec 64
  exsMont : BitVec 64
  exsRdbg : BitVec 64
  uncorrectableError : BitVec 64
  correctableError : BitVec 64

/-- `default_filtered_syscalls`. -/
def defaultFilteredSyscalls : List Syscall :=
  [.rtSigaction, .rtSigreturn, .fork, .vfork, .execve, .exit, .wait4, .rtSigpending,
   .rtSigtimedwait, .rtSigsuspend, .sigaltstack, .exitGroup, .signalfd, .signalfd4]

/-- `VEO_EXCEPTION_MASK`. -/
def exceptionMask : BitVec 64 := ~~~0xff

/-- `-ENOSYS`, as the 64-bit return value of a system call. -/
def enosys : BitVec 64 := toWord (-38)

/-! ## Streams of exceptions -/

/-- One exception: the EXS value, and the system call number and arguments that the
    driver reports if it is a monitor call. -/
structure VeException where
  exs : BitVec 64
  sysnum : Int
  args : Fin 6 → BitVec 64

/-- One result of `vedl_wait_exception`. -/
inductive WaitResult where
  | interrupted
  | failed (errno : Int)
  | raised (e : VeException)

/-- A request to VE OS or to the system call handler of the pseudo process. -/
inductive Answer where
  | unBlock (sysnum : Int) (retval : BitVec 64)
  | block
  | handle (sysnum : Int)
deriving DecidableEq

/-- A VE thread as its pseudo thread sees it. `sysargs` is the system call argument area
    that `vedl_get_syscall_args` reads. The exceptions seen and the answers given are
    kept in order. -/
structure VeThread where
  state : ContextState
  veSp : BitVec 64
  sysargs : Fin 6 → BitVec 64
  seen : List VeException
  answers : List Answer

/-- The ways a computation of the pseudo thread does not return: the driver has no
    further result yet, a `VEOException` is thrown, or the program is aborted. -/
inductive Stop where
  | waiting (t : VeThread)
  | thrown (what : String) (errno : Int)
  | fault (f : Fault)

namespace VeThread

def answer (t : VeThread) (a : Answer) : VeThread := { t with answers := t.answers ++ [a] }

end VeThread

/-! ## Filters -/

/-- `ExceptionHandlerStatus`. -/
def statusException : Int := -1
def statusTerminated : Int := 0
def statusBlockRequested : Int := 1

/-- The arguments of `sysve(VE_SYSVE_VEO_BLOCK, retval, _, _, _, sp)`. -/
def argCode : Fin 6 := 0
def argRetval : Fin 6 := 1
def argSp : Fin 6 := 5

/-- `is_veo_block`. -/
def isVeoBlock (t : VeThread) (sysnum : Int) : Bool :=
  if sysnum ≠ nrSysve then false else t.sysargs argCode == sysveVeoBlock

/-- What a filter returns: whether the call is filtered, and the break flag. -/
structure Filtered where
  filtered : Bool
  breakFlag : Int
  thread : VeThread

section Platform
variable (P : Platform)

/-- `defaultFilter`. -/
def defaultFilter (sysnum : Int) (t : VeThread) : Filtered :=
  if sysnum ∈ defaultFilteredSyscalls.map P.nr then
    -- filtered system calls are "blocking" system calls
    { filtered := true, breakFlag := 0, thread := t.answer (.unBlock sysnum enosys) }
  else if isVeoBlock t sysnum then
    { filtered := true, breakFlag := statusBlockRequested,
      thread := { t.answer .block with state := .blocked } }
  else
    { filtered := false, breakFlag := 0, thread := t }

/-- The filter that hooks one call and leaves the others to the default filter. -/
def hookFilter (hooked : Syscall) (sysnum : Int) (t : VeThread) : Filtered :=
  if sysnum = P.nr hooked then
    { filtered := true, breakFlag := P.nr hooked, thread := t }
  else
    defaultFilter P sysnum t

/-- `hookCloneFilter`. -/
def hookCloneFilter : Int → VeThread → Filtered := hookFilter P .clone

/-- `exitFilter`. -/
def exitFilter : Int → VeThread → Filtered := hookFilter P .exitGroup

/-- The filters that are passed to `exceptionHandler`. -/
inductive SyscallFilter where
  | default | hookClone | exit
deriving DecidableEq, Repr

def SyscallFilter.apply : SyscallFilter → Int → VeThread → Filtered
  | .default => defaultFilter P
  | .hookClone => hookCloneFilter P
  | .exit => exitFilter P

/-! ## The handler -/

/-- The wait loop of `handleSingleException`: interrupted waits and empty exceptions are
    retried. -/
def waitException (t : VeThread) : List WaitResult → Except Stop (VeException × List WaitResult)
  | [] => .error (.waiting t)
  | .interrupted :: es => waitException t es
  | .failed errno :: _ => .error (.thrown "vedl_wait_exception failed" errno)
  | .raised e :: es => if e.exs &&& exceptionMask = 0 then waitException t es else .ok (e, es)

/-- The error condition of an EXS value. -/
def isError (exs : BitVec 64) : Bool :=
  exs &&& P.exsMont ≠ 0 || exs &&& P.uncorrectableError ≠ 0 ||
    (exs &&& P.correctableError ≠ 0 && exs &&& (P.exsMonc ||| P.exsRdbg) = 0)

/-- A monitor call in `handleSingleException`: the filter decides whether the call is
    handed to the system call handler. Returns the break flag. The context is in the
    state SYSCALL only while the call is handled. -/
def handleMonitorCall (filter : SyscallFilter) (e : VeException) (t : VeThread) : Int × VeThread :=
  let r := filter.apply P e.sysnum { t with sysargs := e.args }
  if r.filtered then
    (r.breakFlag, r.thread)
  else
    (r.breakFlag, { r.thread.answer (.handle e.sysnum) with state := .running })

/-- The rest of `handleSingleException`, after the wait. Returns its result. -/
def handleRaised (filter : SyscallFilter) (e : VeException) (t : VeThread) : Int × VeThread :=
  let t := { t with seen := t.seen ++ [e] }
  let (breakFlag, t) :=
    if e.exs &&& P.exsMonc ≠ 0 then handleMonitorCall P filter e t else (0, t)
  if isError P e.exs then
    (statusException, t.answer .block)
  else if breakFlag ≠ 0 then
    (breakFlag, t)
  else
    (0, t)

/-- What `exceptionHandler` returns, with the EXS value and the rest of the stream. -/
structure Handled where
  status : Int
  exs : BitVec 64
  thread : VeThread
  rest : List WaitResult

/-- `handleSingleException`. -/
def handleSingleException (filter : SyscallFilter) (es : List WaitResult) (t : VeThread) :
    Except Stop Handled := do
  let (e, es) ← waitException t es
  let (rv, t) := handleRaised P filter e t
  return { status := rv, exs := e.exs, thread := t, rest := es }

/-- The loop of `exceptionHandler`. Every round takes a result from the stream, so the
    number of results bounds the number of rounds. -/
def exceptionLoop (filter : SyscallFilter) :
    Nat → BitVec 64 → List WaitResult → VeThread → Except Stop Handled
  | 0, _, _, t => .error (.waiting t)
  | fuel + 1, exc, es, t =>
    if t.state = .running then do
      let r ← handleSingleException P filter es t
      if r.status ≠ 0 then
        return r
      else
        exceptionLoop filter fuel r.exs r.rest r.thread
    else
      return { status := statusTerminated, exs := exc, thread := t, rest := es }

/-- `exceptionHandler`. -/
def exceptionHandler (filter : SyscallFilter) (es : List WaitResult) (t : VeThread) :
    Except Stop Handled :=
  exceptionLoop P filter (es.length + 1) 0 es t

/-- `defaultExceptionHandler`. -/
def defaultExceptionHandler : List WaitResult → VeThread → Except Stop Handled :=
  exceptionHandler P .default

end Platform

end Veo
