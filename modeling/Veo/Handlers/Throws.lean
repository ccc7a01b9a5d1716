-- SUMMARY: Which commands throw a VEOException, and when.
import Veo.Handlers.Hooks

/-!
# Exceptions thrown by the handlers

A handler throws when the wait for an exception of the VE thread fails with another error than
EINTR. The open-context command also throws when the semaphore of the new context cannot be
initialized, and when the VE thread does not come to a block request after the clone request.
Everything else that goes wrong ends in a result, or ends the program.
-/

namespace Veo

variable {P : Platform} {env : Env} {t : VeThread} {addr : BitVec 64}

/-! ## The conditions -/

/-- A wait fails before the exception handler stops. -/
def WaitFails (P : Platform) (f : SyscallFilter) (es : List WaitResult) : Prop :=
  ∃ pre errno post, es = pre ++ .failed errno :: post ∧ ∀ w ∈ pre, w.Quiet P f

/-- The second part of the open-context command fails: the clone request, or the wait for the
    next block request, for which the results `es` are left. -/
def CloneFails (P : Platform) (env : Env) (es : List WaitResult) : Prop :=
  env.semInit = false ∨ WaitFails P .default es ∨
    ∃ e, StopsFirst P .default es e ∧ isError P e.exs = true

/-- The first part of the open-context command comes to a stop, and the second part fails. -/
def CloneStopFails (P : Platform) (env : Env) : Prop :=
  ∃ pre e post, env.events = pre ++ .raised e :: post ∧ (∀ w ∈ pre, w.Quiet P .hookClone) ∧
    e.Terminates P .hookClone ∧ CloneFails P env post

/-- The handler starts its VE function, and something that it waits for fails. -/
def Handler.Throws (P : Platform) (env : Env) (t : VeThread) : Handler → Prop
  | .callAsync addr => Starts addr env t ∧ WaitFails P .default env.events
  | .exitProc addr => Starts addr env t ∧ WaitFails P .exit env.events
  | .callOpenContext addr =>
    Starts addr env t ∧ (WaitFails P .hookClone env.events ∨ CloneStopFails P env)
  | .callVHAsync _ | .asyncReadMem .. | .asyncWriteMem .. => False

/-! ## What throws -/

theorem exceptionHandler_thrown {f : SyscallFilter} {es : List WaitResult} {what : String}
    {errno : Int} (ht : t.state = .running)
    (h : exceptionHandler P f es t = .error (.thrown what errno)) : WaitFails P f es := by
  rcases first_stop P f es with ⟨pre, e, post, rfl, hpre, he⟩ | ⟨pre, n, post, rfl, hpre⟩ | hall
  · rw [exceptionHandler_first post ht hpre he] at h
    cases h
  · exact ⟨pre, n, post, rfl, hpre⟩
  · rw [exceptionHandler_waits ht hall] at h
    cases h

theorem WaitFails.handler {f : SyscallFilter} {es : List WaitResult} (h : WaitFails P f es)
    (ht : t.state = .running) : ∃ errno,
      exceptionHandler P f es t = .error (.thrown "vedl_wait_exception failed" errno) := by
  obtain ⟨pre, errno, post, rfl, hpre⟩ := h
  exact ⟨errno, exceptionHandler_failed ht hpre⟩

theorem liftFault_thrown {α : Type} {x : Except Fault α} {what : String} {errno : Int} :
    liftFault x ≠ .error (.thrown what errno) := by
  cases x <;> simp [liftFault]

theorem doCall_thrown {m : Machine} {what : String} {errno : Int} :
    doCall addr env m t ≠ .error (.thrown what errno) := by
  intro h
  rcases Except.bind_eq_error.mp h with h₁ | ⟨⟨args, sp⟩, -, h₂⟩
  · exact liftFault_thrown h₁
  · rcases Except.bind_eq_error.mp h₂ with h₃ | ⟨regs, -, h₄⟩
    · exact liftFault_thrown h₃
    · split at h₄ <;> cases h₄

/-- Where the handler of `callAsync` can fail. The copy-out of a call that was started does not. -/
theorem callAsync_eq_error {x : Stop} (h : Handler.exec P (.callAsync addr) env t = .error x) :
    doCall addr env env.machine t = .error x ∨
      ∃ s, doCall addr env env.machine t = .ok s ∧
        (exceptionHandler P .default env.events s.thread = .error x ∨ x = .fault .assertion) := by
  rcases Except.bind_eq_error.mp h with h₁ | ⟨s, hs, h₁⟩
  · exact .inl h₁
  · refine .inr ⟨s, hs, ?_⟩
    rcases Except.bind_eq_error.mp h₁ with h₂ | ⟨r, -, h₂⟩
    · exact .inl h₂
    · split at h₂
      · cases h₂
      · rcases Except.bind_eq_error.mp h₂ with h₃ | ⟨⟨rv, th⟩, -, h₃⟩
        · unfold collectReturnValue at h₃
          split at h₃
          · cases h₃
          · cases h₃
            exact .inr rfl
        · obtain ⟨o, ho⟩ := copyoutStopped_ok hs
          rcases Except.bind_eq_error.mp h₃ with h₄ | ⟨⟨args, vh⟩, -, h₄⟩
          · cases ho.symm.trans h₄
          · cases h₄

/-- A thrown exception of the handler of `callAsync` comes from a failed wait. -/
theorem callAsync_thrown {what : String} {errno : Int}
    (h : Handler.exec P (.callAsync addr) env t = .error (.thrown what errno)) :
    Starts addr env t ∧ WaitFails P .default env.events := by
  rcases callAsync_eq_error h with h₁ | ⟨s, hs, hwait | hassert⟩
  · exact absurd h₁ doCall_thrown
  · exact ⟨⟨s, hs⟩, exceptionHandler_thrown (doCall_running hs) hwait⟩
  · cases hassert

theorem exitProc_thrown {what : String} {errno : Int}
    (h : Handler.exec P (.exitProc addr) env t = .error (.thrown what errno)) :
    Starts addr env t ∧ WaitFails P .exit env.events := by
  rcases Except.bind_eq_error.mp h with h₁ | ⟨s, hs, h₁⟩
  · exact absurd h₁ doCall_thrown
  · refine ⟨⟨s, hs⟩, ?_⟩
    rcases Except.bind_eq_error.mp h₁ with h₂ | ⟨r, -, h₂⟩
    · exact exceptionHandler_thrown (doCall_running hs) h₂
    · split at h₂
      · cases h₂
      · obtain ⟨o, ho⟩ := copyoutStopped_ok hs
        rcases Except.bind_eq_error.mp h₂ with h₃ | ⟨⟨args, vh⟩, -, h₃⟩
        · cases ho.symm.trans h₃
        · cases h₃

/-- A thrown exception of the open-context command comes from a failed wait, or from the part
    after the clone request. -/
theorem callOpenContext_thrown {what : String} {errno : Int}
    (h : Handler.exec P (.callOpenContext addr) env t = .error (.thrown what errno)) :
    Starts addr env t ∧ (WaitFails P .hookClone env.events ∨ CloneStopFails P env) := by
  rcases Except.bind_eq_error.mp h with h₁ | ⟨s, hs, h₁⟩
  · exact absurd h₁ doCall_thrown
  · refine ⟨⟨s, hs⟩, ?_⟩
    rcases Except.bind_eq_error.mp h₁ with h₂ | ⟨req, hreq, h₂⟩
    · exact .inl (exceptionHandler_thrown (doCall_running hs) h₂)
    · obtain ⟨pre, e, post, hev, hpre, he, rfl⟩ := exceptionHandler_eq_ok (doCall_running hs) hreq
      refine .inr ⟨pre, e, post, hev, hpre, he, ?_⟩
      rcases Except.bind_eq_error.mp h₂ with h₃ | ⟨tid, -, h₃⟩
      · unfold handleCloneRequest at h₃
        split at h₃
        · cases h₃
        · rename_i hsem
          exact .inl (Bool.not_eq_true _ ▸ hsem)
      · rcases Except.bind_eq_error.mp h₃ with h₄ | ⟨r, hr, h₄⟩
        · exact .inr (.inl (exceptionHandler_thrown rfl h₄))
        · split at h₄
          · rename_i hstatus
            obtain ⟨e', he', hst⟩ := stopsFirst_of_handler rfl hr
            refine .inr (.inr ⟨e', he', ?_⟩)
            by_contra herr
            have hnot : isError P e'.exs = false := Bool.eq_false_iff.mpr herr
            obtain ⟨-, -, -, -, hterm⟩ := he'
            exact hstatus (hst.trans (VeException.status_eq_block_iff.mpr
              ⟨hnot, VeException.block_of_terminates hterm hnot⟩))
          · cases h₄

/-- After the clone request, a failure of the second part is thrown. -/
theorem callOpenContext_cloneStopFails (hs : Starts addr env t) (h : CloneStopFails P env) :
    ∃ what errno, Handler.exec P (.callOpenContext addr) env t = .error (.thrown what errno) := by
  obtain ⟨s, hdo⟩ := hs
  obtain ⟨pre, e, post, hev, hpre, he, hclone⟩ := h
  have hreq := exceptionHandler_first post (doCall_running hdo) hpre he
  rw [← hev] at hreq
  let u := unBlock (toWord env.clone) (e.after P .hookClone (afterAll P .hookClone pre s.thread))
  cases hsem : env.semInit with
  | false =>
      simp only [Handler.exec, callOpenContextHandler, hdo, hreq, handleCloneRequest, hsem, bind,
        Except.bind]
      exact ⟨_, _, rfl⟩
  | true =>
      simp only [Handler.exec, callOpenContextHandler, hdo, hreq, handleCloneRequest, hsem,
        defaultExceptionHandler, bind, Except.bind, if_true]
      rcases hclone with hfalse | hfails | ⟨e', he', herr⟩
      · cases hsem.symm.trans hfalse
      · obtain ⟨errno, hwait⟩ := hfails.handler (t := u) rfl
        simp only [u] at hwait
        rw [hwait]
        exact ⟨_, _, rfl⟩
      · obtain ⟨r, hr, hstatus, -⟩ := he'.handler (t := u) rfl
        have hne : r.status ≠ statusBlockRequested := by
          rw [hstatus, VeException.status_of_error herr]
          decide
        simp only [u] at hr
        rw [hr]
        simp only [hne, ne_eq, not_false_eq_true, if_true]
        exact ⟨_, _, rfl⟩

/-- The handlers throw exactly when something that they wait for fails. -/
theorem exec_thrown_iff {f : Handler} :
    (∃ what errno, f.exec P env t = .error (.thrown what errno)) ↔ f.Throws P env t := by
  cases f with
  | callAsync addr =>
      constructor
      · rintro ⟨what, errno, h⟩
        exact callAsync_thrown h
      · rintro ⟨⟨s, hs⟩, hfails⟩
        obtain ⟨errno, hwait⟩ := hfails.handler (doCall_running hs)
        exact ⟨_, _, Except.bind_eq_error.mpr (.inr ⟨s, hs, Except.bind_eq_error.mpr (.inl hwait)⟩)⟩
  | exitProc addr =>
      constructor
      · rintro ⟨what, errno, h⟩
        exact exitProc_thrown h
      · rintro ⟨⟨s, hs⟩, hfails⟩
        obtain ⟨errno, hwait⟩ := hfails.handler (doCall_running hs)
        exact ⟨_, _, Except.bind_eq_error.mpr (.inr ⟨s, hs, Except.bind_eq_error.mpr (.inl hwait)⟩)⟩
  | callOpenContext addr =>
      constructor
      · rintro ⟨what, errno, h⟩
        exact callOpenContext_thrown h
      · rintro ⟨⟨s, hs⟩, hfails | hclone⟩
        · obtain ⟨errno, hwait⟩ := hfails.handler (doCall_running hs)
          exact ⟨_, _, Except.bind_eq_error.mpr (.inr ⟨s, hs,
            Except.bind_eq_error.mpr (.inl hwait)⟩)⟩
        · exact callOpenContext_cloneStopFails ⟨s, hs⟩ hclone
  | callVHAsync a | asyncReadMem d s n | asyncWriteMem d s n =>
      constructor
      · rintro ⟨what, errno, h⟩
        cases h
      · exact False.elim

/-! ## Failures that are results -/

/-- The result of a call and the return value of its handler go together. -/
theorem callAsync_result {o : Outcome} (h : Handler.exec P (.callAsync addr) env t = .ok o) :
    o.rv = 0 ∧ o.result.status = .ok ∨ o.rv = 1 ∧ o.result.status = .exception := by
  obtain ⟨s, pre, e, post, hdo, hev, hpre, he⟩ := callAsync_eq_ok h
  cases herr : isError P e.exs with
  | false =>
      obtain ⟨o', ho', hresult, hrv, -⟩ := callAsync_block hdo hev hpre he herr
      cases ho'.symm.trans h
      exact .inl ⟨hrv, by rw [hresult]⟩
  | true =>
      obtain ⟨o', ho', hresult, hrv, -⟩ := callAsync_error hdo hev hpre he herr
      cases ho'.symm.trans h
      exact .inr ⟨hrv, by rw [hresult]⟩

/-- A handler that fails has set a status that is not OK. -/
theorem exec_failed_status {f : Handler} {o : Outcome} (h : f.exec P env t = .ok o)
    (hrv : o.rv ≠ 0) : o.result.status ≠ .ok := by
  cases f with
  | callAsync addr =>
      rcases callAsync_result h with ⟨hzero, -⟩ | ⟨-, hstatus⟩
      · exact absurd hzero hrv
      · simp [hstatus]
  | callOpenContext addr =>
      obtain ⟨s, -, h₁⟩ := Except.bind_eq_ok.mp h
      obtain ⟨req, -, h₂⟩ := Except.bind_eq_ok.mp h₁
      obtain ⟨tid, -, h₃⟩ := Except.bind_eq_ok.mp h₂
      obtain ⟨r, -, h₄⟩ := Except.bind_eq_ok.mp h₃
      split at h₄
      · cases h₄
      · cases h₄
        exact absurd rfl hrv
  | exitProc addr => exact absurd (exec_exitProc rfl h).1 hrv
  | callVHAsync a =>
      cases h
      exact absurd rfl hrv
  | asyncReadMem d s n | asyncWriteMem d s n =>
      cases h
      simp only [transferResult, if_neg hrv]
      simp

/-- No handler sets the status of a command that has not finished. -/
theorem exec_status_ne_unfinished {f : Handler} {o : Outcome} (h : f.exec P env t = .ok o) :
    o.result.status ≠ .unfinished := by
  cases f with
  | callAsync addr =>
      rcases callAsync_result h with ⟨-, hstatus⟩ | ⟨-, hstatus⟩
      · simp [hstatus]
      · simp [hstatus]
  | callOpenContext addr =>
      obtain ⟨s, -, h₁⟩ := Except.bind_eq_ok.mp h
      obtain ⟨req, -, h₂⟩ := Except.bind_eq_ok.mp h₁
      obtain ⟨tid, -, h₃⟩ := Except.bind_eq_ok.mp h₂
      obtain ⟨r, -, h₄⟩ := Except.bind_eq_ok.mp h₃
      split at h₄
      · cases h₄
      · cases h₄
        simp
  | exitProc addr =>
      obtain ⟨s, -, h₁⟩ := Except.bind_eq_ok.mp h
      obtain ⟨r, -, h₂⟩ := Except.bind_eq_ok.mp h₁
      split at h₂
      · cases h₂
        split <;> simp
      · obtain ⟨⟨args, vh⟩, -, h₃⟩ := Except.bind_eq_ok.mp h₂
        cases h₃
        simp
  | callVHAsync a =>
      cases h
      simp
  | asyncReadMem d s n | asyncWriteMem d s n =>
      cases h
      simp only [transferResult]
      split <;> simp

end Veo
