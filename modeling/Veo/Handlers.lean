-- SUMMARY: The handlers of the commands: what the pseudo thread runs for each kind of request, and the result it sets.
import Veo.Call

/-!
# The handlers of the commands

A command is a function object that a submitter builds and the pseudo thread calls. Its
handler works on the VE thread, sets the result of the command and returns zero, or a
non-zero value that ends the event loop. The close request is not among these handlers,
because it never returns.
-/

namespace Veo

/-! ## Commands -/

/-- The function objects that are pushed to the request queue, with what they capture. -/
inductive Handler where
  | callAsync (addr : BitVec 64)
  | callVHAsync (func : Nat)
  | asyncReadMem (dst : Nat) (src : BitVec 64) (size : Nat)
  | asyncWriteMem (dst : BitVec 64) (src : Nat) (size : Nat)
  | callOpenContext (addr : BitVec 64)
  | exitProc (addr : BitVec 64)
deriving DecidableEq

/-- The return value and the status that `setResult` stores in a command. -/
structure CmdResult where
  retval : BitVec 64
  status : CommandStatus
deriving DecidableEq

/-- What a handler leaves: the VE thread, the result it set, its return value, the
    arguments object, and the memories. -/
structure Outcome where
  thread : VeThread
  result : CmdResult
  rv : Int
  args : CallArgs
  vh : FlatMem
  ve : WordMem 64

section Platform
variable (P : Platform)

/-! ## VE calls -/

/-- `_readMem` from the VE memory at the time the VE thread stopped. -/
def readMemStopped (env : Env) (a : BitVec 64) (n : Nat) (buf : List Byte) (_ : Unit) :
    Int × List Byte × Unit :=
  let r := env.recv env.veStopped a n buf
  (r.1, r.2, ())

/-- The copy-out of a call. -/
def copyoutStopped (env : Env) (args : CallArgs) : Except Stop (CallArgs × FlatMem) := do
  let (args, vh, _) ← liftFault (args.copyout (readMemStopped env) env.vh ())
  return (args, vh)

/-- The handler of `callAsync`. -/
def callAsyncHandler (addr : BitVec 64) (env : Env) (t : VeThread) : Except Stop Outcome := do
  let s ← doCall addr env env.machine t
  -- _executeVE
  let r ← defaultExceptionHandler P env.events s.thread
  if r.status ≠ statusBlockRequested then
    let result : CmdResult :=
      if r.status = statusException then { retval := r.exs, status := .exception }
      else { retval := toWord r.status, status := .error }
    return { thread := r.thread, result := result, rv := 1, args := s.args, vh := env.vh,
             ve := env.veStopped }
  else
    let (rv, t) ← collectReturnValue r.thread
    -- post
    let (args, vh) ← copyoutStopped env s.args
    return { thread := t, result := { retval := rv, status := .ok }, rv := 0, args := args,
             vh := vh, ve := env.veStopped }

/-! ## VH calls and transfers -/

/-- The handler of `callVHAsync`. What the VH function returns is in the environment. -/
def callVHAsyncHandler (env : Env) (t : VeThread) : Except Stop Outcome :=
  .ok { thread := t, result := { retval := env.func, status := .ok }, rv := 0, args := env.args,
        vh := env.vh, ve := env.ve }

/-- The result of a transfer: its return value, with the status that tells whether it is
    zero. -/
def transferResult (rv : Int) : CmdResult :=
  { retval := toWord rv, status := if rv = 0 then .ok else .error }

/-- The handler of `asyncReadMem`. -/
def asyncReadMemHandler (dst : Nat) (src : BitVec 64) (size : Nat) (env : Env) (t : VeThread) :
    Except Stop Outcome :=
  let r := env.recv env.ve src size (env.vh.read dst size)
  .ok { thread := t, result := transferResult r.1, rv := r.1, args := env.args,
        vh := env.vh.write dst r.2, ve := env.ve }

/-- The handler of `asyncWriteMem`. -/
def asyncWriteMemHandler (dst : BitVec 64) (src size : Nat) (env : Env) (t : VeThread) :
    Except Stop Outcome :=
  let r := env.send dst (env.vh.read src size) env.ve
  .ok { thread := t, result := transferResult r.1, rv := r.1, args := env.args, vh := env.vh,
        ve := r.2 }

/-! ## Opening a context -/

/-- `handleCloneRequest` of the new context. -/
def handleCloneRequest (env : Env) : Except Stop Int :=
  if env.semInit then .ok env.clone else .error (.thrown "sem_init failed." env.errno)

/-- The handler of `_callOpenContext`. The result that it sets when the VE thread did not
    call `clone` is overwritten in the end. -/
def callOpenContextHandler (addr : BitVec 64) (env : Env) (t : VeThread) :
    Except Stop Outcome := do
  let s ← doCall addr env env.machine t
  -- hook clone() on VE
  let req ← exceptionHandler P .hookClone env.events s.thread
  let tid ← handleCloneRequest env
  -- restart execution; execute until the next block request
  let r ← defaultExceptionHandler P req.rest (unBlock (toWord tid) req.thread)
  if r.status ≠ statusBlockRequested then
    .error (.thrown "Unexpected exception occured" env.errno)
  else
    let retval := if tid < 0 then toWord tid else env.newctx
    return { thread := r.thread, result := { retval := retval, status := .ok }, rv := 0,
             args := s.args, vh := env.vh, ve := env.veStopped }

/-! ## Leaving the VE process -/

/-- The handler of the command that `exitProc` pushes. Its local variable `status` is
    never set. -/
def exitProcHandler (addr : BitVec 64) (env : Env) (t : VeThread) : Except Stop Outcome := do
  let s ← doCall addr env env.machine t
  let r ← exceptionHandler P .exit env.events s.thread
  if r.status = 0 then
    let result : CmdResult :=
      if env.indeterminate = statusException then { retval := r.exs, status := .exception }
      else { retval := toWord env.indeterminate, status := .error }
    return { thread := r.thread, result := result, rv := 1, args := s.args, vh := env.vh,
             ve := env.veStopped }
  else
    -- post
    let (args, vh) ← copyoutStopped env s.args
    return { thread := r.thread, result := { retval := 0, status := .ok }, rv := 0, args := args,
             vh := vh, ve := env.veStopped }

/-- The call of a command's function object. -/
def Handler.exec : Handler → Env → VeThread → Except Stop Outcome
  | .callAsync addr => callAsyncHandler P addr
  | .callVHAsync _ => callVHAsyncHandler
  | .asyncReadMem dst src size => asyncReadMemHandler dst src size
  | .asyncWriteMem dst src size => asyncWriteMemHandler dst src size
  | .callOpenContext addr => callOpenContextHandler P addr
  | .exitProc addr => exitProcHandler P addr

end Platform

/-! ## Started calls -/

theorem CallArgs.arguments_of_setup {ca ca' : CallArgs} {vh : FlatMem} {sp sp' : BitVec 64}
    (h : ca.setup vh sp = .ok (ca', sp')) : ∃ args : List Arg, ca'.arguments = args.map some := by
  obtain ⟨⟨ca₁, sp₁, img⟩, himg, h₁⟩ := Except.bind_eq_ok.mp h
  obtain ⟨-, hca⟩ := Except.ite_eq_ok.mp h₁
  obtain ⟨args, -, h₂⟩ := Except.bind_eq_ok.mp himg
  obtain ⟨area, -, h₃⟩ := Except.bind_eq_ok.mp h₂
  obtain ⟨size, -, h₄⟩ := Except.bind_eq_ok.mp h₃
  simp only at h₄
  split at h₄
  · cases h₄
  · cases h₄
    cases hca
    exact ⟨_, rfl⟩

section Started
variable {P : Platform} {addr : BitVec 64} {env : Env} {m : Machine} {t : VeThread} {s : Started}

/-- The copy-out of a started call does not fail. -/
theorem copyoutStopped_ok (h : doCall addr env m t = .ok s) :
    ∃ r, copyoutStopped env s.args = .ok r := by
  obtain ⟨hsetup, -, -⟩ := doCall_eq_ok h
  obtain ⟨args, hargs⟩ := CallArgs.arguments_of_setup hsetup
  unfold copyoutStopped
  cases hout : s.args.copiedOut with
  | false =>
      rw [CallArgs.copyout_of_not_copiedOut hout]
      exact ⟨_, rfl⟩
  | true =>
      rw [CallArgs.copyout_of_copiedOut _ hout hargs]
      exact ⟨_, rfl⟩

theorem doCall_running (h : doCall addr env m t = .ok s) : s.thread.state = .running := by
  obtain ⟨-, -, sr0, hthread⟩ := doCall_eq_ok h
  rw [hthread]
  rfl

theorem doCall_seen (h : doCall addr env m t = .ok s) : s.thread.seen = t.seen := by
  obtain ⟨-, -, sr0, hthread⟩ := doCall_eq_ok h
  rw [hthread]
  rfl

end Started

/-! ## The thread where a handler stops -/

namespace VeException
variable {P : Platform} {f : SyscallFilter} {e : VeException} {t : VeThread}

theorem after_state_of_block (h : e.IsBlock P) : (e.after P f t).state = .blocked := if_pos h

theorem after_state_of_not_block (h : ¬ e.IsBlock P) : (e.after P f t).state = t.state := if_neg h

theorem after_sysargs_of_block (h : e.IsBlock P) : (e.after P f t).sysargs = e.args := if_pos h.1

theorem status_eq_block_iff :
    e.status P f = statusBlockRequested ↔ isError P e.exs = false ∧ e.IsBlock P := by
  unfold status
  cases herr : isError P e.exs with
  | true => simp [statusException, statusBlockRequested]
  | false =>
      by_cases hhook : e.IsHooked P f
      · have hblock := not_block_of_hooked hhook
        obtain ⟨c, -, hc⟩ := Option.map_eq_some_iff.mp hhook.2
        have hgt := P.nrGt c
        rw [hc] at hgt
        simp only [hhook, hblock, if_true, statusBlockRequested]
        simp
        omega
      · by_cases hblock : e.IsBlock P <;> simp [hhook, hblock, statusBlockRequested]

/-- The status of an error. -/
theorem status_of_error (h : isError P e.exs = true) : e.status P f = statusException := if_pos h

/-- Without a hook, what terminates the handler is an error or a block request. -/
theorem block_of_terminates (h : e.Terminates P .default) (herr : isError P e.exs = false) :
    e.IsBlock P := by
  rcases h.2 with he | hb | hk
  · exact absurd (he.symm.trans herr) (by decide)
  · exact hb
  · obtain ⟨-, hnone⟩ := hk
    cases hnone

end VeException

/-- At a block request the return value and the stack pointer are collected. -/
theorem collectReturnValue_after {P : Platform} {f : SyscallFilter} {e : VeException}
    {t : VeThread} (h : e.IsBlock P) :
    collectReturnValue (e.after P f t) =
      .ok (e.args argRetval, { e.after P f t with veSp := e.args argSp }) := by
  have hargs := VeException.after_sysargs_of_block (f := f) (t := t) h
  simp only [collectReturnValue, hargs, h.2.2, if_true]

/-! ## VE calls -/

section CallAsync
variable {P : Platform} {addr : BitVec 64} {env : Env} {t : VeThread} {s : Started}
  {pre post : List WaitResult} {e : VeException}

/-- A call that comes back to its block request succeeds with the value returned there. -/
theorem callAsync_block (hdo : doCall addr env env.machine t = .ok s)
    (hev : env.events = pre ++ .raised e :: post) (hpre : ∀ w ∈ pre, w.Quiet P .default)
    (he : e.Terminates P .default) (herr : isError P e.exs = false) :
    ∃ o, Handler.exec P (.callAsync addr) env t = .ok o ∧
      o.result = { retval := e.args argRetval, status := .ok } ∧ o.rv = 0 ∧ o.thread.state = .blocked ∧
      o.thread.veSp = e.args argSp ∧ o.thread.seen = t.seen ++ raisedOf pre ++ [e] := by
  have hblock := VeException.block_of_terminates he herr
  have hhandler := exceptionHandler_first post (doCall_running hdo) hpre he
  rw [← hev] at hhandler
  have hstatus : e.status P .default = statusBlockRequested :=
    VeException.status_eq_block_iff.mpr ⟨herr, hblock⟩
  obtain ⟨⟨args, vh⟩, hcopy⟩ := copyoutStopped_ok hdo
  simp only [Handler.exec, callAsyncHandler, hdo, defaultExceptionHandler, hhandler, hstatus,
    collectReturnValue_after hblock, hcopy, bind, Except.bind, pure, Except.pure,
    ne_eq, not_true_eq_false, if_false]
  refine ⟨_, rfl, rfl, rfl, VeException.after_state_of_block (f := .default) hblock, rfl, ?_⟩
  simp [VeException.after, afterAll_seen, doCall_seen hdo]

/-- A call that ends in an error condition fails with the EXS value. -/
theorem callAsync_error (hdo : doCall addr env env.machine t = .ok s)
    (hev : env.events = pre ++ .raised e :: post) (hpre : ∀ w ∈ pre, w.Quiet P .default)
    (he : e.Terminates P .default) (herr : isError P e.exs = true) :
    ∃ o, Handler.exec P (.callAsync addr) env t = .ok o ∧
      o.result = { retval := e.exs, status := .exception } ∧ o.rv = 1 ∧
      o.thread = e.after P .default (afterAll P .default pre s.thread) := by
  have hhandler := exceptionHandler_first post (doCall_running hdo) hpre he
  rw [← hev] at hhandler
  simp only [Handler.exec, callAsyncHandler, hdo, defaultExceptionHandler, hhandler,
    VeException.status_of_error herr, bind, Except.bind, pure, Except.pure]
  exact ⟨_, rfl, rfl, rfl, rfl⟩

/-- What a call that returns has run to. -/
theorem callAsync_eq_ok {o : Outcome} (h : Handler.exec P (.callAsync addr) env t = .ok o) :
    ∃ s pre e post, doCall addr env env.machine t = .ok s ∧
      env.events = pre ++ .raised e :: post ∧ (∀ w ∈ pre, w.Quiet P .default) ∧
      e.Terminates P .default := by
  obtain ⟨s, hdo, h₁⟩ := Except.bind_eq_ok.mp h
  obtain ⟨r, hr, -⟩ := Except.bind_eq_ok.mp h₁
  obtain ⟨pre, e, post, hev, hpre, he, -⟩ := exceptionHandler_eq_ok (doCall_running hdo) hr
  exact ⟨s, pre, e, post, hdo, hev, hpre, he⟩

end CallAsync

/-! ## The exception handler and the outcome of a call -/

/-- The handler has stopped at the exception `e`, after the results `pre`. -/
structure StopsAt (P : Platform) (f : SyscallFilter) (t : VeThread) (pre : List WaitResult)
    (e : VeException) (r : Handled) : Prop where
  exs : r.exs = e.exs
  /-- An error condition takes precedence. -/
  error : isError P e.exs = true → r.status = statusException
  block : isError P e.exs = false → e.IsBlock P →
    r.status = statusBlockRequested ∧ r.thread.state = .blocked
  hooked : isError P e.exs = false → e.IsHooked P f →
    r.status = e.sysnum ∧ r.thread.state = .running
  notTerminated : r.status ≠ statusTerminated
  /-- Every system call before is answered once, in order. -/
  answers : r.thread.answers =
    t.answers ++ ((raisedOf pre).flatMap (VeException.reply P f) ++ e.answers P f)
  /-- No filtered call is handed to the system call handler. -/
  refused : ∀ c ∈ defaultFilteredSyscalls,
    .handle (P.nr c) ∉ (raisedOf pre).flatMap (VeException.reply P f) ++ e.answers P f

namespace VeException
variable {P : Platform} {f : SyscallFilter}

theorem handle_not_mem_reply {c : Syscall} (hc : c ∈ defaultFilteredSyscalls) (e : VeException) :
    .handle (P.nr c) ∉ e.reply P f := by
  unfold reply
  intro hmem
  split at hmem
  · split at hmem
    · simp at hmem
    · rename_i hnot
      simp only [List.mem_singleton, Answer.handle.injEq] at hmem
      exact hnot (List.mem_map.mpr ⟨c, hc, hmem⟩)
  · cases hmem

theorem handle_not_mem_answers {c : Syscall} (hc : c ∈ defaultFilteredSyscalls) (e : VeException) :
    .handle (P.nr c) ∉ e.answers P f := by
  unfold answers
  intro hmem
  rcases List.mem_append.mp hmem with h | h
  · rcases List.mem_append.mp h with h | h
    · exact handle_not_mem_reply hc e h
    · split at h <;> simp at h
  · split at h <;> simp at h

end VeException

theorem exceptionHandler_stopsAt {P : Platform} {f : SyscallFilter} {t : VeThread}
    {pre post : List WaitResult} {e : VeException} (ht : t.state = .running)
    (hpre : ∀ w ∈ pre, w.Quiet P f) (he : e.Terminates P f) :
    ∃ r, exceptionHandler P f (pre ++ .raised e :: post) t = .ok r ∧ r.rest = post ∧
      StopsAt P f t pre e r := by
  refine ⟨_, exceptionHandler_first post ht hpre he, rfl, ?_⟩
  obtain ⟨-, hrunning⟩ := exceptionHandler_append [] ht hpre
  constructor
  case exs => rfl
  case error => exact VeException.status_of_error
  case block =>
    intro herr hblock
    exact ⟨VeException.status_eq_block_iff.mpr ⟨herr, hblock⟩,
      VeException.after_state_of_block hblock⟩
  case hooked =>
    intro herr hhook
    have hblock := VeException.not_block_of_hooked hhook
    refine ⟨?_, (VeException.after_state_of_not_block hblock).trans hrunning⟩
    simp [VeException.status, herr, hhook]
  case notTerminated => exact VeException.status_ne_zero_iff.mpr he.2
  case answers => simp [VeException.after, afterAll_answers hpre]
  case refused =>
    intro c hc hmem
    rcases List.mem_append.mp hmem with h | h
    · obtain ⟨x, -, hx⟩ := List.mem_flatMap.mp h
      exact VeException.handle_not_mem_reply hc x hx
    · exact VeException.handle_not_mem_answers hc e h

/-- The exception handler follows the first event that ends it: a terminating exception,
    or a failed wait; without one it keeps waiting. The outcome of a VE call follows the
    same event: a block request gives the return value, an error the EXS value. -/
theorem exceptionHandler_follows_first (P : Platform) (f : SyscallFilter) (es : List WaitResult)
    (t : VeThread) (ht : t.state = .running) :
    ((∃ pre e post, es = pre ++ .raised e :: post ∧ (∀ w ∈ pre, w.Quiet P f) ∧
        e.Terminates P f ∧
        ∃ r, exceptionHandler P f es t = .ok r ∧ r.rest = post ∧ StopsAt P f t pre e r) ∨
     (∃ pre errno post, es = pre ++ .failed errno :: post ∧ (∀ w ∈ pre, w.Quiet P f) ∧
        exceptionHandler P f es t = .error (.thrown "vedl_wait_exception failed" errno)) ∨
     ((∀ w ∈ es, w.Quiet P f) ∧
        ∃ u, exceptionHandler P f es t = .error (.waiting u) ∧ u.state = .running ∧
          u.answers = t.answers ++ (raisedOf es).flatMap (VeException.reply P f))) ∧
    ∀ (addr : BitVec 64) (env : Env) (u : VeThread) (s : Started) (pre post : List WaitResult)
      (e : VeException), doCall addr env env.machine u = .ok s →
      env.events = pre ++ .raised e :: post → (∀ w ∈ pre, w.Quiet P .default) →
      e.Terminates P .default →
      ∃ o, Handler.exec P (.callAsync addr) env u = .ok o ∧
        if isError P e.exs then
          o.result = { retval := e.exs, status := .exception } ∧ o.rv = 1
        else
          o.result = { retval := e.args argRetval, status := .ok } ∧ o.rv = 0 ∧
            o.thread.state = .blocked := by
  constructor
  · rcases first_stop P f es with ⟨pre, e, post, rfl, hpre, he⟩ | ⟨pre, errno, post, rfl, hpre⟩ |
      hall
    · exact .inl ⟨pre, e, post, rfl, hpre, he, exceptionHandler_stopsAt ht hpre he⟩
    · exact .inr (.inl ⟨pre, errno, post, rfl, hpre, exceptionHandler_failed ht hpre⟩)
    · obtain ⟨-, hrunning⟩ := exceptionHandler_append [] ht hall
      exact .inr (.inr ⟨hall, _, exceptionHandler_waits ht hall, hrunning, afterAll_answers hall⟩)
  · intro addr env u s pre post e hdo hev hpre he
    cases herr : isError P e.exs with
    | true =>
        obtain ⟨o, ho, hresult, hrv, -⟩ := callAsync_error hdo hev hpre he herr
        exact ⟨o, ho, hresult, hrv⟩
    | false =>
        obtain ⟨o, ho, hresult, hrv, hstate, -⟩ := callAsync_block hdo hev hpre he herr
        exact ⟨o, ho, hresult, hrv, hstate⟩

/-- The system call numbers of Linux, with one bit of EXS for each kind of exception. -/
def linuxPlatform : Platform where
  nr
    | .rtSigaction => 13 | .rtSigreturn => 15 | .clone => 56 | .fork => 57 | .vfork => 58
    | .execve => 59 | .exit => 60 | .wait4 => 61 | .rtSigpending => 127 | .rtSigtimedwait => 128
    | .rtSigsuspend => 130 | .sigaltstack => 131 | .exitGroup => 231 | .signalfd => 282
    | .signalfd4 => 289
  nrGt := by
    intro c
    cases c <;> decide
  nrInjective := by
    intro a b h
    cases a <;> cases b <;> first | rfl | exact absurd h (by decide)
  nrNeSysve := by
    intro c
    cases c <;> decide
  exsMonc := 0x100
  exsMont := 0x200
  exsRdbg := 0x400
  uncorrectableError := 0x800
  correctableError := 0x1000

/-- A monitor call. -/
def VeException.monitorCall (sysnum : Int) (args : Fin 6 → BitVec 64) : VeException :=
  { exs := 0x100, sysnum := sysnum, args := args }

/-- A block request with the return value `retval` at the stack pointer `sp`. -/
def VeException.blockRequest (retval sp : BitVec 64) : VeException :=
  .monitorCall nrSysve fun i => if i = argCode then sysveVeoBlock else if i = argRetval then retval
    else if i = argSp then sp else 0

/-- An interrupted wait, a refused `fork`, a system call that is handled, and a block
    request. -/
theorem exceptionHandler_follows_first_block :
    ∃ r, exceptionHandler linuxPlatform .default
        [.interrupted, .raised (.monitorCall 57 fun _ => 0), .raised (.monitorCall 39 fun _ => 0),
          .raised (.blockRequest 7 0x8000)] ⟨.running, 0, fun _ => 0, [], []⟩ = .ok r ∧
      r.status ≠ statusTerminated := by
  rcases (exceptionHandler_follows_first linuxPlatform .default
    [.interrupted, .raised (.monitorCall 57 fun _ => 0), .raised (.monitorCall 39 fun _ => 0),
      .raised (.blockRequest 7 0x8000)] ⟨.running, 0, fun _ => 0, [], []⟩ rfl).1 with
    ⟨pre, e, post, -, -, -, r, hr, -, hstop⟩ | ⟨pre, errno, post, hes, -⟩ | ⟨hquiet, -⟩
  · exact ⟨r, hr, hstop.notTerminated⟩
  · have hmem : WaitResult.failed errno ∈ pre ++ .failed errno :: post := by simp
    rw [← hes] at hmem
    simp at hmem
  · have hblock := hquiet (.raised (.blockRequest 7 0x8000)) (by simp)
    exact absurd ⟨by decide, .inr (.inl (by decide))⟩ hblock

end Veo
