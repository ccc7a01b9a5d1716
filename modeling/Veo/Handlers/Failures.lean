-- SUMMARY: Failures while a command is handled: which of them a handler reports, and after which commands the event loop goes on.
import Veo.Handlers.Throws
import Veo.Handlers.Transfers

/-!
# Failures of the handlers

A command fails if the driver or the VE thread does not do what its handler relies on. Some
failures are reported: the handler sets a status that is not OK and returns a value that is not
zero. After the others the handler does not return, or it takes the failure for a success.
-/

namespace Veo

variable {P : Platform} {f : SyscallFilter} {es : List WaitResult} {e : VeException}

/-! ## The stop that is waited for -/

/-- The exception is the one that a handler waits for: the hooked call, or a block request if no
    call is hooked. -/
def VeException.Expected (P : Platform) (f : SyscallFilter) (e : VeException) : Prop :=
  isError P e.exs = false ∧ if f = .default then e.IsBlock P else e.IsHooked P f

/-- The VE thread comes to the exception that is waited for. -/
def ComesTo (P : Platform) (f : SyscallFilter) (es : List WaitResult) : Prop :=
  ∃ e, StopsFirst P f es e ∧ e.Expected P f

/-- A wait fails, or the exception handler stops at another exception. -/
def MissesStop (P : Platform) (f : SyscallFilter) (es : List WaitResult) : Prop :=
  WaitFails P f es ∨ ∃ e, StopsFirst P f es e ∧ ¬ e.Expected P f

/-- The exception handler stops at one exception only. -/
theorem StopsFirst.unique {e' : VeException} (h : StopsFirst P f es e) (h' : StopsFirst P f es e') :
    e = e' := by
  let t : VeThread := ⟨.running, 0, fun _ => 0, [], []⟩
  obtain ⟨pre, post, hes, hpre, he⟩ := h
  obtain ⟨pre', post', hes', hpre', he'⟩ := h'
  have hfirst := exceptionHandler_first (t := t) post rfl hpre he
  have hfirst' := exceptionHandler_first (t := t) post' rfl hpre' he'
  rw [← hes] at hfirst
  rw [← hes', hfirst] at hfirst'
  -- the exception at which the handler stops is the last one that it has seen
  have hseen := congrArg (fun r : Handled => r.thread.seen.getLast?) (Except.ok.inj hfirst')
  simpa [VeException.after] using hseen

theorem StopsFirst.not_waitFails (h : StopsFirst P f es e) : ¬ WaitFails P f es := by
  let t : VeThread := ⟨.running, 0, fun _ => 0, [], []⟩
  intro hfails
  obtain ⟨r, hr, -, -⟩ := h.handler (t := t) rfl
  obtain ⟨errno, hthrown⟩ := hfails.handler (t := t) rfl
  cases hr.symm.trans hthrown

theorem ComesTo.not_missesStop (h : ComesTo P f es) : ¬ MissesStop P f es := by
  obtain ⟨e, he, hexpected⟩ := h
  rintro (hfails | ⟨e', he', hnot⟩)
  · exact he.not_waitFails hfails
  · exact hnot (he.unique he' ▸ hexpected)

/-- Without a hook the VE thread comes to a block request if there is no error before. -/
theorem comesTo_default_iff :
    ComesTo P .default es ↔ ∃ e, StopsFirst P .default es e ∧ isError P e.exs = false := by
  constructor
  · rintro ⟨e, he, herr, -⟩
    exact ⟨e, he, herr⟩
  · rintro ⟨e, he, herr⟩
    obtain ⟨-, -, -, -, hterm⟩ := id he
    refine ⟨e, he, herr, ?_⟩
    rw [if_pos rfl]
    exact VeException.block_of_terminates hterm herr

/-! ## What can fail -/

variable {env : Env} {t : VeThread}

/-- The VE thread comes to the stop that is waited for, and the read transfer of `copyout` takes
    place and fails. -/
def CopyoutFails (P : Platform) (f : SyscallFilter) (env : Env) (t : VeThread) : Prop :=
  ComesTo P f env.events ∧ ∃ ca sp, env.args.setup env.vh t.veSp = .ok (ca, sp) ∧
    ca.copiedOut = true ∧ (env.recv env.veStopped ca.stackTop ca.stackSize ca.stackBuf).1 ≠ 0

namespace Handler

/-- Something that the handler relies on fails. A clone request that is refused is not one of
    these: its error number is the answer to the VE thread and the value of the command. -/
def Fails (P : Platform) (env : Env) (t : VeThread) : Handler → Prop
  | .callAsync addr =>
    ¬ Starts addr env t ∨ SendFails env t ∨ MissesStop P .default env.events ∨
      CopyoutFails P .default env t
  | .callVHAsync _ => False
  | .asyncReadMem dst src size => (env.recv env.ve src size (env.vh.read dst size)).1 ≠ 0
  | .asyncWriteMem dst src size => (env.send dst (env.vh.read src size) env.ve).1 ≠ 0
  | .callOpenContext addr =>
    ¬ Starts addr env t ∨ SendFails env t ∨ MissesStop P .hookClone env.events ∨
      CloneStopFails P env
  | .exitProc addr =>
    ¬ Starts addr env t ∨ SendFails env t ∨ MissesStop P .exit env.events ∨
      CopyoutFails P .exit env t

/-- The failures that are not reported. The handler of `callAsync` looks at the stop of the VE
    function only, and the open-context and the exit command not even at that. -/
def Unreported (P : Platform) (env : Env) (t : VeThread) : Handler → Prop
  | .callAsync addr =>
    ¬ Starts addr env t ∨ WaitFails P .default env.events ∨ CopyoutFails P .default env t ∨
      (SendFails env t ∧ ComesTo P .default env.events)
  | .callVHAsync _ | .asyncReadMem .. | .asyncWriteMem .. => False
  | .callOpenContext addr => (Handler.callOpenContext addr).Fails P env t
  | .exitProc addr => (Handler.exitProc addr).Fails P env t

/-- What is thrown is not reported. -/
theorem Throws.unreported {h : Handler} (hthrows : h.Throws P env t) : h.Unreported P env t := by
  cases h with
  | callAsync addr => exact .inr (.inl hthrows.2)
  | callOpenContext addr =>
      rcases hthrows.2 with hfails | hclone
      · exact .inr (.inr (.inl (.inl hfails)))
      · exact .inr (.inr (.inr hclone))
  | exitProc addr => exact .inr (.inr (.inl (.inl hthrows.2)))
  | callVHAsync func | asyncReadMem dst src size | asyncWriteMem dst src size => exact hthrows

end Handler

/-! ## What is reported -/

/-- The stop of a VE call is the one that is waited for, or it is reported. -/
theorem callAsync_reports {addr : BitVec 64} (hs : Starts addr env t)
    (he : StopsFirst P .default env.events e) (herr : isError P e.exs = true) :
    ∃ o, Handler.exec P (.callAsync addr) env t = .ok o ∧ o.rv ≠ 0 ∧ o.result.status ≠ .ok := by
  obtain ⟨s, hdo⟩ := hs
  obtain ⟨pre, post, hev, hpre, hterm⟩ := he
  obtain ⟨o, ho, hresult, hrv, -⟩ := callAsync_error hdo hev hpre hterm herr
  exact ⟨o, ho, by rw [hrv]; decide, by rw [hresult]; simp⟩

/-- A VE call that returns with a failure has stopped at an error. -/
theorem callAsync_failed {addr : BitVec 64} {o : Outcome}
    (h : Handler.exec P (.callAsync addr) env t = .ok o) (hrv : o.rv ≠ 0) :
    Starts addr env t ∧ ∃ e, StopsFirst P .default env.events e ∧ isError P e.exs = true := by
  obtain ⟨s, pre, e, post, hdo, hev, hpre, hterm⟩ := callAsync_eq_ok h
  refine ⟨⟨s, hdo⟩, e, ⟨pre, post, hev, hpre, hterm⟩, ?_⟩
  by_contra hnot
  obtain ⟨o', ho', -, hzero, -⟩ :=
    callAsync_block hdo hev hpre hterm (Bool.eq_false_iff.mpr hnot)
  cases ho'.symm.trans h
  exact hrv hzero

/-- A failed command for which the driver has results to the end: the failure is reported, by a
    status that is not OK and a return value that is not zero, if and only if it is not one of the
    unreported ones. -/
theorem exec_reports_iff {h : Handler} (hfails : h.Fails P env t)
    (hends : ∀ u, h.exec P env t ≠ .error (.waiting u)) :
    (∃ o, h.exec P env t = .ok o ∧ o.rv ≠ 0 ∧ o.result.status ≠ .ok) ↔ ¬ h.Unreported P env t := by
  cases h with
  | callAsync addr =>
      constructor
      · rintro ⟨o, ho, hrv, -⟩
        obtain ⟨hs, e, he, herr⟩ := callAsync_failed ho hrv
        have hmisses : ¬ ComesTo P .default env.events := by
          rintro ⟨e', he', hnot, -⟩
          cases he.unique he'
          exact absurd (herr.symm.trans hnot) (by decide)
        rintro (hnot | hwait | hcopy | hsend)
        · exact hnot hs
        · exact he.not_waitFails hwait
        · exact hmisses hcopy.1
        · exact hmisses hsend.2
      · intro hrep
        simp only [Handler.Unreported, not_or, not_and, not_not] at hrep
        obtain ⟨hs, hwait, hcopy, hsend⟩ := hrep
        rcases first_stop P .default env.events with ⟨pre, e, post, hev, hpre, he⟩ |
          ⟨pre, errno, post, hev, hpre⟩ | hquiet
        · have hstop : StopsFirst P .default env.events e := ⟨pre, post, hev, hpre, he⟩
          cases herr : isError P e.exs with
          | true => exact callAsync_reports hs hstop herr
          | false =>
              have hcomes := comesTo_default_iff.mpr ⟨e, hstop, herr⟩
              rcases hfails with hnot | hfails | hfails | hfails
              · exact absurd hs hnot
              · exact absurd hcomes (hsend hfails)
              · exact absurd hfails hcomes.not_missesStop
              · exact absurd hfails hcopy
        · exact absurd ⟨pre, errno, post, hev, hpre⟩ hwait
        · obtain ⟨s, hdo⟩ := hs
          refine absurd ?_ (hends (afterAll P .default env.events s.thread))
          exact Except.bind_eq_error.mpr (.inr ⟨s, hdo, Except.bind_eq_error.mpr
            (.inl (exceptionHandler_waits (doCall_running hdo) hquiet))⟩)
  | callOpenContext addr =>
      refine ⟨?_, fun hrep => absurd hfails hrep⟩
      rintro ⟨o, ho, -, hstatus⟩
      exact absurd (exec_callOpenContext_ok ho).1 hstatus
  | exitProc addr =>
      refine ⟨?_, fun hrep => absurd hfails hrep⟩
      rintro ⟨o, ho, hrv, -⟩
      exact absurd (exec_exitProc rfl ho).1 hrv
  | callVHAsync func => exact hfails.elim
  | asyncReadMem dst src size | asyncWriteMem dst src size =>
      simp only [Handler.Fails] at hfails
      exact ⟨fun _ => not_false, fun _ => ⟨_, rfl, hfails, by simp [transferResult, hfails]⟩⟩

/-! ## When the event loop goes on -/

/-- The open-context command comes to a stop, the semaphore of the new context is initialized, and
    the VE thread comes to its next block request. -/
def ClonePasses (P : Platform) (env : Env) : Prop :=
  ∃ pre e post, env.events = pre ++ .raised e :: post ∧ (∀ w ∈ pre, w.Quiet P .hookClone) ∧
    e.Terminates P .hookClone ∧ env.semInit = true ∧ ComesTo P .default post

/-- The handler succeeds and leaves the VE thread blocked. The exit command does the latter only
    if the VE thread does not exit. -/
def Handler.GoesOn (P : Platform) (env : Env) (t : VeThread) : Handler → Prop
  | .callAsync addr => Starts addr env t ∧ ComesTo P .default env.events
  | .callVHAsync _ => True
  | .asyncReadMem dst src size => (env.recv env.ve src size (env.vh.read dst size)).1 = 0
  | .asyncWriteMem dst src size => (env.send dst (env.vh.read src size) env.ve).1 = 0
  | .callOpenContext addr => Starts addr env t ∧ ClonePasses P env
  | .exitProc addr => Starts addr env t ∧ StopsAtBlock P .exit env.events

section GoesOn
variable {addr : BitVec 64}

theorem callAsync_goesOn_iff :
    (Starts addr env t ∧ ComesTo P .default env.events) ↔
      ∃ o, Handler.exec P (.callAsync addr) env t = .ok o ∧ o.rv = 0 ∧ o.thread.state = .blocked := by
  rw [comesTo_default_iff]
  constructor
  · rintro ⟨⟨s, hdo⟩, e, ⟨pre, post, hev, hpre, he⟩, herr⟩
    obtain ⟨o, ho, -, hrv, hstate, -⟩ := callAsync_block hdo hev hpre he herr
    exact ⟨o, ho, hrv, hstate⟩
  · rintro ⟨o, ho, hrv, -⟩
    obtain ⟨s, pre, e, post, hdo, hev, hpre, he⟩ := callAsync_eq_ok ho
    refine ⟨⟨s, hdo⟩, e, ⟨pre, post, hev, hpre, he⟩, ?_⟩
    by_contra herr
    obtain ⟨o', ho', -, hone, -⟩ :=
      callAsync_error hdo hev hpre he (Bool.not_eq_false _ ▸ herr)
    cases ho'.symm.trans ho
    exact absurd (hrv.symm.trans hone) (by decide)

theorem callOpenContext_goesOn_iff :
    (Starts addr env t ∧ ClonePasses P env) ↔
      ∃ o, Handler.exec P (.callOpenContext addr) env t = .ok o ∧ o.rv = 0 ∧
        o.thread.state = .blocked := by
  constructor
  · rintro ⟨⟨s, hdo⟩, pre, e, post, hev, hpre, he, hsem, e', he', hexpected⟩
    have hreq := exceptionHandler_first post (doCall_running hdo) hpre he
    rw [← hev] at hreq
    let u := unBlock (toWord env.clone) (e.after P .hookClone (afterAll P .hookClone pre s.thread))
    obtain ⟨r, hr, hstatus, -⟩ := he'.handler (t := u) rfl
    have hblock : r.status = statusBlockRequested := by
      rw [hstatus]
      exact VeException.status_eq_block_iff.mpr hexpected
    simp only [u] at hr
    have hexec : ∃ o, Handler.exec P (.callOpenContext addr) env t = .ok o ∧ o.rv = 0 := by
      simp only [Handler.exec, callOpenContextHandler, hdo, hreq, handleCloneRequest, hsem,
        defaultExceptionHandler, bind, Except.bind, if_true, hr, hblock, ne_eq, not_true_eq_false,
        if_false, pure, Except.pure]
      exact ⟨_, rfl, rfl⟩
    obtain ⟨o, ho, hrv⟩ := hexec
    exact ⟨o, ho, hrv, exec_callOpenContext_state ho⟩
  · rintro ⟨o, ho, -, -⟩
    obtain ⟨s, hdo, h₁⟩ := Except.bind_eq_ok.mp ho
    obtain ⟨req, hreq, h₂⟩ := Except.bind_eq_ok.mp h₁
    obtain ⟨tid, htid, h₃⟩ := Except.bind_eq_ok.mp h₂
    obtain ⟨r, hr, h₄⟩ := Except.bind_eq_ok.mp h₃
    obtain ⟨pre, e, post, hev, hpre, he, rfl⟩ := exceptionHandler_eq_ok (doCall_running hdo) hreq
    refine ⟨⟨s, hdo⟩, pre, e, post, hev, hpre, he, (Except.ite_eq_ok.mp htid).1, ?_⟩
    split at h₄
    · cases h₄
    · rename_i hstatus
      obtain ⟨e', he', hst⟩ := stopsFirst_of_handler rfl hr
      exact ⟨e', he', VeException.status_eq_block_iff.mp (hst.symm.trans (not_not.mp hstatus))⟩

theorem exitProc_goesOn_iff :
    (Starts addr env t ∧ StopsAtBlock P .exit env.events) ↔
      ∃ o, Handler.exec P (.exitProc addr) env t = .ok o ∧ o.rv = 0 ∧ o.thread.state = .blocked := by
  constructor
  · rintro ⟨hs, hstop⟩
    obtain ⟨pre, e, post, hev, hpre, he, -⟩ := id hstop
    obtain ⟨o, ho, -⟩ := exec_exitProc_ok hs ⟨pre, post, hev, hpre, he⟩
    obtain ⟨hrv, hblocked, -⟩ := exec_exitProc rfl ho
    exact ⟨o, ho, hrv, hblocked hstop⟩
  · rintro ⟨o, ho, -, hstate⟩
    obtain ⟨s, hdo, h₁⟩ := Except.bind_eq_ok.mp ho
    obtain ⟨r, hr, h₂⟩ := Except.bind_eq_ok.mp h₁
    obtain ⟨pre, e, post, hev, hpre, he, rfl⟩ := exceptionHandler_eq_ok (doCall_running hdo) hr
    refine ⟨⟨s, hdo⟩, pre, e, post, hev, hpre, he, ?_⟩
    -- at any other stop the VE thread is left running
    by_contra hblock
    obtain ⟨-, hrunning⟩ := exceptionHandler_append [] (doCall_running hdo) hpre
    have hleft : o.thread.state = .running := by
      split at h₂
      · cases h₂
        exact (VeException.after_state_of_not_block hblock).trans hrunning
      · obtain ⟨⟨args, vh⟩, -, h₃⟩ := Except.bind_eq_ok.mp h₂
        cases h₃
        exact (VeException.after_state_of_not_block hblock).trans hrunning
    cases hstate.symm.trans hleft

/-- The event loop goes on after a command if and only if its handler returns zero and leaves the
    VE thread blocked. -/
theorem Handler.goesOn_iff {h : Handler} (ht : t.state = .blocked) :
    h.GoesOn P env t ↔ ∃ o, h.exec P env t = .ok o ∧ o.rv = 0 ∧ o.thread.state = .blocked := by
  cases h with
  | callAsync addr => exact callAsync_goesOn_iff
  | callOpenContext addr => exact callOpenContext_goesOn_iff
  | exitProc addr => exact exitProc_goesOn_iff
  | callVHAsync func => exact ⟨fun _ => ⟨_, rfl, rfl, ht⟩, fun _ => trivial⟩
  | asyncReadMem dst src size | asyncWriteMem dst src size =>
      constructor
      · exact fun hzero => ⟨_, rfl, hzero, ht⟩
      · rintro ⟨o, ho, hrv, -⟩
        cases ho
        exact hrv

end GoesOn

/-! ## Environments in which the event loop goes on -/

/-- The platform tells block requests from errors. -/
def Platform.HasBlockRequest (P : Platform) : Prop :=
  ∃ e : VeException, e.IsRaised ∧ e.IsBlock P ∧ isError P e.exs = false

example : linuxPlatform.HasBlockRequest :=
  ⟨.blockRequest 0 0x8000, by decide, by decide, by decide⟩

/-- A VE function without arguments can be started. -/
theorem starts_plain (addr : BitVec 64) (es : List WaitResult) (t : VeThread) :
    Starts addr (Env.plain [] es) t := by
  have hset : (Env.plain [] es).args.arguments = ([] : List Arg).map some := rfl
  have hok := (CallArgs.setup_ok_iff hset (Env.plain [] es).vh t.veSp _).mpr ⟨by decide, rfl⟩
  obtain ⟨r, hr, -, -⟩ := doCall_of_setup addr (Env.plain [] es).machine hset hok
  exact ⟨r, hr⟩

/-- In some environment a new VE thread comes to its first block request, and the event loop goes
    on after every command. -/
theorem exists_goesOn (hP : P.HasBlockRequest) :
    ∃ env : Env, ComesTo P .default env.events ∧ ∀ (h : Handler) t, h.GoesOn P env t := by
  obtain ⟨e, hraised, hblock, hok⟩ := hP
  have hterm (f : SyscallFilter) : e.Terminates P f := ⟨hraised, .inr (.inl hblock)⟩
  have hquiet (f : SyscallFilter) : ∀ w ∈ ([] : List WaitResult), w.Quiet P f := nofun
  have hcomes (post : List WaitResult) : ComesTo P .default (.raised e :: post) :=
    ⟨e, ⟨[], post, rfl, hquiet _, hterm _⟩, hok, by rw [if_pos rfl]; exact hblock⟩
  refine ⟨Env.plain [] [.raised e, .raised e], hcomes _, fun h t => ?_⟩
  cases h with
  | callAsync addr => exact ⟨starts_plain _ _ _, hcomes _⟩
  | callOpenContext addr =>
      exact ⟨starts_plain _ _ _, [], e, [.raised e], rfl, hquiet _, hterm _, rfl, hcomes _⟩
  | exitProc addr => exact ⟨starts_plain _ _ _, [], e, [.raised e], rfl, hquiet _, hterm _, hblock⟩
  | callVHAsync func => trivial
  | asyncReadMem dst src size | asyncWriteMem dst src size => rfl

end Veo
