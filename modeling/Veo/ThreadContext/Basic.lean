-- SUMMARY: A thread context as a transition system: the steps of its callers and of its pseudo thread.
import Veo.Command
import Veo.Lib.Transition
import Mathlib.Data.Finset.Basic

/-!
# A thread context and its threads

Any number of callers use a `ThreadContext` while its pseudo thread runs the event loop.
A step is one access to shared data: a read or a write of `state`, an operation of a
queue under its mutex, the load of the queue status, one `fetch_add`, or an operation on
`rem_reqid` under `req_mtx`. The call of a command's function object is one step too: all
that callers can see of it before it returns is that `state` is not EXIT.
-/

namespace Veo

variable {T : Type}

/-! ## Callers -/

/-- The functions that collect the result of a command by `callWaitResult`. -/
inductive Waiter where
  /-- The call of a user. -/
  | user
  /-- `doOnContext` and `openContext`, which throw if the status is not OK. -/
  | doOnContext
  /-- `readMem` and `writeMem`, which assert that it is. -/
  | readMem
deriving DecidableEq, Repr

/-- What a call returns. -/
inductive Ret where
  | reqid (id : BitVec 64)
  /-- The status that `callPeekResult` or `callWaitResult` returns, with `*retp` if it is set. -/
  | result (status : CommandStatus) (retval : Option (BitVec 64))
  | value (retval : BitVec 64)
  | threw
  | aborted
  | closed (retval : BitVec 64)
  | unit
deriving DecidableEq

/-- The return of a function from `callWaitResult`. -/
def Waiter.returns (w : Waiter) (status : CommandStatus) (retval : Option (BitVec 64)) : Ret :=
  match w with
  | .user => .result status retval
  | .doOnContext => if status = .ok then .value (retval.getD 0) else .threw
  | .readMem => if status = .ok then .value (retval.getD 0) else .aborted

/-- What a caller does with the ID of its request. -/
inductive After where
  /-- Return it to the user. -/
  | submit
  /-- Collect the result by `callWaitResult`. -/
  | collect (w : Waiter)
  /-- Wait for the completion, in `exitProc` and in `close`. -/
  | exit
  | close
deriving DecidableEq, Repr

/-- Where a caller is. -/
inductive Pc (T : Type) where
  | idle
  /-- A submitter tests its argument and the state. -/
  | test (f : Handler) (k : After)
  /-- `issueRequestID`: the `fetch_add`, and the insertion into `rem_reqid`. -/
  | issue (kind : Kind) (k : After)
  | insert (id : BitVec 64) (kind : Kind) (k : After)
  /-- `pushRequest`: the load of the status, and the push. -/
  | load (c : Command T) (k : After)
  | push (c : Command T) (k : After)
  /-- `callPeekResult`: the lookup in `rem_reqid`, and the search. -/
  | peekFind (reqid : BitVec 64)
  | peekSearch (reqid : BitVec 64)
  /-- `callWaitResult`: the lookup and removal, and the wait. -/
  | waitErase (reqid : BitVec 64) (w : Waiter)
  | waitFor (reqid : BitVec 64) (w : Waiter)
  /-- `exitProc`. -/
  | exitTest (addr : BitVec 64)
  | exitWait (id : BitVec 64)
  | exitDone
  /-- `veo_context_close`. -/
  | closeTest
  | closeWait (id : BitVec 64)
  | delete
  | done (r : Ret)
deriving DecidableEq

/-- The next step of a caller that has got the ID `id` for its request. -/
def After.next (id : BitVec 64) : After → Pc T
  | .submit => .done (.reqid id)
  | .collect w => .waitErase id w
  | .exit => .exitWait id
  | .close => .closeWait id

/-- The submitters that test their argument: `callAsync` refuses the address zero and
    `callVHAsync` the null pointer. -/
def Handler.isNull : Handler → Bool
  | .callAsync addr => addr == 0
  | .callVHAsync func => func == 0
  | _ => false

/-- The ID that a submitter goes on with when its request is rejected: `callVHAsync` does
    not test the result of `pushRequest`. -/
def Kind.rejectedId (id : BitVec 64) : Kind → BitVec 64
  | .handler (.callVHAsync _) => id
  | _ => requestIdInvalid

/-- The calls that use a context. `locked` tells whether the caller of `doOnContext` holds
    `main_mutex`. -/
inductive Op where
  | callAsync (addr : BitVec 64)
  | callVHAsync (func : Nat)
  | asyncReadMem (dst : Nat) (src : BitVec 64) (size : Nat)
  | asyncWriteMem (dst : BitVec 64) (src : Nat) (size : Nat)
  | callPeekResult (reqid : BitVec 64)
  | callWaitResult (reqid : BitVec 64)
  | doOnContext (locked : Bool) (func : BitVec 64)
  | openContext (func : BitVec 64)
  | readMem (dst : Nat) (src : BitVec 64) (size : Nat)
  | writeMem (dst : BitVec 64) (src : Nat) (size : Nat)
  | exitProc (addr : BitVec 64)
  | close
deriving DecidableEq

/-- The first step of a call. -/
def Op.start : Op → Pc T
  | .callAsync addr => .test (.callAsync addr) .submit
  | .callVHAsync func => .test (.callVHAsync func) .submit
  | .asyncReadMem dst src size => .test (.asyncReadMem dst src size) .submit
  | .asyncWriteMem dst src size => .test (.asyncWriteMem dst src size) .submit
  | .callPeekResult reqid => .peekFind reqid
  | .callWaitResult reqid => .waitErase reqid .user
  | .doOnContext _ func => .test (.callAsync func) (.collect .doOnContext)
  | .openContext func => .test (.callOpenContext func) (.collect .doOnContext)
  | .readMem dst src size => .test (.asyncReadMem dst src size) (.collect .readMem)
  | .writeMem dst src size => .test (.asyncWriteMem dst src size) (.collect .readMem)
  | .exitProc addr => .exitTest addr
  | .close => .closeTest

/-- The calls that hold `main_mutex`. -/
def Op.locks : Op → Bool
  | .doOnContext locked _ => locked
  | .openContext _ | .readMem .. | .writeMem .. | .exitProc _ => true
  | _ => false

/-! ## The pseudo thread -/

/-- Where the pseudo thread is. -/
inductive Pseudo where
  /-- `startEventLoop`: up to the first block request. -/
  | start
  | startFailed
  /-- `eventLoop`: the loop condition, the pop, the command, and its completion. -/
  | test
  | pop
  | run
  | complete
  /-- The failure sequence of `eventLoop`. -/
  | failState
  | failClose
  | failPush
  /-- `setCompletion`. -/
  | drain
  | drainPush
  /-- `_closeCommandHandler`, after the state is set. -/
  | closeReply
  /-- Returned from the event loop, left by `pthread_exit`, or ended by an exception. -/
  | returned
  | exited
  | aborted
deriving DecidableEq, Repr

/-- The pseudo thread does not use the context any more. -/
def Pseudo.finished : Pseudo → Bool
  | .returned | .exited | .aborted => true
  | _ => false

/-! ## The context -/

/-- A completion that a caller has taken: the ID it asked for, and what its call returns. -/
structure Delivery (T : Type) where
  caller : T
  asked : BitVec 64
  command : Command T
  returns : Ret

/-- A thread context with the threads that use it. The fields from `issued` on are the
    history. -/
structure Sys (T : Type) where
  /-- The VE thread, with `state` and `ve_sp`. -/
  thread : VeThread
  comq : CommQueue T
  seqNo : BitVec 64
  remReqid : Finset (BitVec 64)
  reqMtx : Option T
  pseudo : Pseudo
  /-- The command in the hands of the pseudo thread. -/
  command : Option (Command T)
  pc : T → Pc T
  /-- The number of calls that a caller has started. -/
  calls : T → Nat
  mainMutex : Option T
  /-- The main thread of the process is in the state EXIT. -/
  mainExit : Bool
  /-- The context has been deleted. -/
  deleted : Bool
  issued : Nat
  accepted : List (Ticket T)
  ran : List (Ticket T × CmdResult)
  dropped : List (Ticket T)
  delivered : List (Delivery T)

/-- A context whose VE thread `t` has just been created: `startEventLoop` has set the state
    and posted the semaphore. -/
def Sys.init (t : VeThread) : Sys T where
  thread := { t with state := .running, seen := [] }
  comq := .init
  seqNo := 0
  remReqid := ∅
  reqMtx := none
  pseudo := .start
  command := none
  pc := fun _ => .idle
  calls := fun _ => 0
  mainMutex := none
  mainExit := false
  deleted := false
  issued := 0
  accepted := []
  ran := []
  dropped := []
  delivered := []

namespace Sys

/-- `state = s`. -/
def setState (s : Sys T) (state : ContextState) : Sys T :=
  { s with thread := { s.thread with state := state } }

section Caller
variable [DecidableEq T]

def goto (s : Sys T) (t : T) (pc : Pc T) : Sys T := { s with pc := Function.update s.pc t pc }

/-- The caller takes the command `c` out of the completion queue and goes to `pc`. -/
def deliver (s : Sys T) (t : T) (asked : BitVec 64) (c : Command T) (comq : CommQueue T)
    (ret : Ret) (pc : Pc T) : Sys T :=
  { s.goto t pc with comq := comq, delivered := s.delivered ++ [⟨t, asked, c, ret⟩] }

/-- The return of a call from the result of a command. -/
def resultOf (w : Waiter) (c : Command T) : Ret :=
  match c.result with
  | some r => w.returns r.status (some r.retval)
  | none => w.returns .error none

/-! ### Steps of a caller -/

/-- A caller starts a call; if the call holds `main_mutex` it has to be free. -/
def startCall (s : Sys T) (t : T) (op : Op) : Option (Sys T) :=
  if s.pc t = .idle ∧ (op.locks → s.mainMutex = none) then
    some { s.goto t op.start with
      calls := Function.update s.calls t (s.calls t + 1)
      mainMutex := if op.locks then some t else s.mainMutex }
  else
    none

/-- `issueRequestID`: one round of the `fetch_add` loop. -/
def issue (s : Sys T) (t : T) (kind : Kind) (k : After) : Sys T :=
  let s' := { s with seqNo := s.seqNo + 1, issued := s.issued + 1 }
  if s.seqNo = requestIdInvalid then s' else s'.goto t (.insert s.seqNo kind k)

/-- `issueRequestID`: the insertion under `req_mtx`; then the command is built. -/
def insertId (s : Sys T) (t : T) (id : BitVec 64) (kind : Kind) (k : After) : Option (Sys T) :=
  if s.reqMtx = none then
    some ({ s with remReqid := insert id s.remReqid }.goto t
      (.load ⟨⟨t, s.calls t, id, kind⟩, none⟩ k))
  else
    none

/-- `pushRequest`: the push after the status was found READY. -/
def pushRequest (s : Sys T) (t : T) (c : Command T) (k : After) : Sys T :=
  { s.goto t (k.next c.msgid) with
    comq := s.comq.pushRequest c, accepted := s.accepted ++ [c.toTicket] }

/-- `callPeekResult`: the lookup; the mutex is held during the search that follows. -/
def peekFind (s : Sys T) (t : T) (reqid : BitVec 64) : Option (Sys T) :=
  if s.reqMtx = none then
    if reqid ∈ s.remReqid then some ({ s with reqMtx := some t }.goto t (.peekSearch reqid))
    else some (s.goto t (.done (.result .error none)))
  else
    none

/-- `callPeekResult`: the search, the removal of the ID, and the unlock. -/
def peekSearch (s : Sys T) (t : T) (reqid : BitVec 64) : Sys T :=
  match s.comq.findCompletion reqid with
  | some (c, comq) =>
    if reqid ∈ s.remReqid then
      { s.deliver t reqid c comq (resultOf .user c) (.done (resultOf .user c)) with
        remReqid := s.remReqid.erase reqid, reqMtx := none }
    else
      { s.goto t (.done (.result .error none)) with comq := comq, reqMtx := none }
  | none => { s.goto t (.done (.result .unfinished none)) with reqMtx := none }

/-- `callWaitResult`: the lookup and the removal. -/
def waitErase (s : Sys T) (t : T) (reqid : BitVec 64) (w : Waiter) : Option (Sys T) :=
  if s.reqMtx = none then
    if reqid ∈ s.remReqid then
      some ({ s with remReqid := s.remReqid.erase reqid }.goto t (.waitFor reqid w))
    else
      some (s.goto t (.done (w.returns .error none)))
  else
    none

/-- The return value of `close`. -/
def closeRetval (c : Command T) : BitVec 64 := (c.result.map CmdResult.retval).getD 0

/-- `waitCompletion` in `close`; the context is deleted if the return value is zero. -/
def closeFinish (s : Sys T) (t : T) (id : BitVec 64) (c : Command T) (comq : CommQueue T) : Sys T :=
  s.deliver t id c comq (.closed (closeRetval c))
    (if closeRetval c = 0 then .delete else .done (.closed (closeRetval c)))

/-- One step of the caller `t`. -/
def callerStep (s : Sys T) (t : T) : Option (Sys T) :=
  match s.pc t with
  | .idle => none
  | .test f k =>
    if f.isNull ∨ s.thread.state = .exit then some (s.goto t (k.next requestIdInvalid))
    else some (s.goto t (.issue (.handler f) k))
  | .issue kind k => some (s.issue t kind k)
  | .insert id kind k => s.insertId t id kind k
  | .load c k =>
    if s.comq.request.status = .ready then some (s.goto t (.push c k))
    else some (s.goto t (k.next (c.kind.rejectedId c.msgid)))
  | .push c k => some (s.pushRequest t c k)
  | .peekFind reqid => s.peekFind t reqid
  | .peekSearch reqid => some (s.peekSearch t reqid)
  | .waitErase reqid w => s.waitErase t reqid w
  | .waitFor reqid w =>
    (s.comq.findCompletion reqid).map fun r =>
      s.deliver t reqid r.1 r.2 (resultOf w r.1) (.done (resultOf w r.1))
  | .exitTest addr =>
    if addr = 0 ∨ s.mainExit = true then some (s.goto t (.done .unit))
    else some (s.goto t (.issue (.handler (.exitProc addr)) .exit))
  | .exitWait id =>
    (s.comq.findCompletion id).map fun r => s.deliver t id r.1 r.2 .unit .exitDone
  | .exitDone => some { s.goto t (.done .unit) with mainExit := true }
  | .closeTest =>
    if s.thread.state = .exit then some (s.goto t .delete)
    else some (s.goto t (.issue .close .close))
  | .closeWait id => (s.comq.findCompletion id).map fun r => s.closeFinish t id r.1 r.2
  | .delete => some { s.goto t (.done (.closed 0)) with deleted := true }
  | .done _ =>
    some { s.goto t .idle with
      mainMutex := if s.mainMutex = some t then none else s.mainMutex }

end Caller

/-! ### Steps of the pseudo thread -/

section Pseudo
variable (P : Platform)

/-- `startEventLoop`: execute until the first block request. -/
def startEventLoop (s : Sys T) (env : Env) : Option (Sys T) :=
  match defaultExceptionHandler P env.events s.thread with
  | .ok r =>
    if r.status = statusBlockRequested then
      match collectReturnValue r.thread with
      | .ok (_, t) => some { s with thread := t, pseudo := .test }
      | .error _ => some { s with pseudo := .aborted }
    else
      some { s with thread := r.thread, pseudo := .startFailed }
  | .error (.waiting _) => none
  | .error _ => some { s with pseudo := .aborted }

/-- The call of the command's function object. -/
def runCommand (s : Sys T) (env : Env) (c : Command T) : Option (Sys T) :=
  match c.kind with
  | .close =>
    -- process_thread_cleanup; the reply is a new command with the same ID
    some { s.setState .exit with
      command := some (c.setResult ⟨0, .ok⟩), ran := s.ran ++ [(c.toTicket, ⟨0, .ok⟩)],
      pseudo := .closeReply }
  | .handler f =>
    match f.exec P env s.thread with
    | .ok o =>
      some { s with
        thread := o.thread, command := some (c.setResult o.result),
        ran := s.ran ++ [(c.toTicket, o.result)],
        pseudo := if o.rv ≠ 0 then .failState else .complete }
    | .error (.waiting _) => none
    | .error _ => some { s with pseudo := .aborted }

/-- `pushCompletion` of the command in hand. -/
def complete (s : Sys T) (next : Pseudo) : Option (Sys T) :=
  s.command.map fun c =>
    { s with comq := s.comq.pushCompletion c, command := none, pseudo := next }

/-- One step of the pseudo thread. -/
def pseudoStep (s : Sys T) (env : Env) : Option (Sys T) :=
  match s.pseudo with
  | .start => s.startEventLoop P env
  | .startFailed => some { s.setState .exit with pseudo := .returned }
  | .test => some { s with pseudo := if s.thread.state = .blocked then .pop else .returned }
  | .pop =>
    s.comq.popRequest.map fun r =>
      { s with comq := r.2, command := some r.1, pseudo := .run }
  | .run => s.command.bind fun c => s.runCommand P env c
  | .complete => s.complete .test
  | .failState => some { s.setState .exit with pseudo := .failClose }
  | .failClose => some { s with comq := s.comq.setRequestStatus .closed, pseudo := .failPush }
  | .failPush => s.complete .drain
  | .drain =>
    match s.comq.popRequest with
    | some (c, comq) =>
      some { s with
        comq := comq, command := some (c.setResult ⟨0, .unfinished⟩),
        dropped := s.dropped ++ [c.toTicket], pseudo := .drainPush }
    | none => some { s with pseudo := .returned }
  | .drainPush => s.complete .drain
  | .closeReply => s.complete .exited
  | .returned | .exited | .aborted => none

end Pseudo

end Sys

/-! ## The system -/

/-- The actions of the system: a caller starts a call or takes its next step, or the pseudo
    thread takes its next step in some environment. -/
inductive Act (T : Type) where
  | start (t : T) (op : Op)
  | caller (t : T)
  | pseudo (env : Env)

def Act.isPseudo : Act T → Bool
  | .pseudo _ => true
  | _ => false

def Sys.step [DecidableEq T] (P : Platform) (s : Sys T) : Act T → Option (Sys T)
  | .start t op => s.startCall t op
  | .caller t => s.callerStep t
  | .pseudo env => s.pseudoStep P env

/-- The states that a new context reaches. -/
def Reachable [DecidableEq T] (P : Platform) (s : Sys T) : Prop :=
  ∃ t, Transition.Reaches (Sys.step P) (Sys.init t) s

end Veo
