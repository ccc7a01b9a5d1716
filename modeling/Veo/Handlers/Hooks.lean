-- SUMMARY: The commands that hook a system call: opening a context at clone and leaving the process at exit_group.
import Veo.Handlers.Effects

/-!
# The commands that hook a system call

The open-context command runs the VE thread until it calls `clone`, the exit command of
`exitProc` until it calls `exit_group`. Both look at the result of the exception handler,
but the first goes on after it has found another stop, and the second takes every stop for
the one it waits for.
-/

namespace Veo

/-! ## Where the exception handler stops -/

/-- The exception handler stops at `e`. -/
def StopsFirst (P : Platform) (f : SyscallFilter) (es : List WaitResult) (e : VeException) : Prop :=
  ∃ pre post, es = pre ++ .raised e :: post ∧ (∀ w ∈ pre, w.Quiet P f) ∧ e.Terminates P f

/-- The exception is the hooked call and no error. -/
def VeException.AtHook (P : Platform) (f : SyscallFilter) (e : VeException) : Prop :=
  isError P e.exs = false ∧ e.IsHooked P f

/-- If the exception handler stops, it does so at the hooked call. -/
def OnlyHooked (P : Platform) (f : SyscallFilter) (es : List WaitResult) : Prop :=
  ∀ e, StopsFirst P f es e → e.AtHook P f

variable {P : Platform} {f : SyscallFilter} {es : List WaitResult} {e : VeException} {t : VeThread}

theorem StopsFirst.handler (h : StopsFirst P f es e) (ht : t.state = .running) :
    ∃ r, exceptionHandler P f es t = .ok r ∧ r.status = e.status P f ∧ r.exs = e.exs := by
  obtain ⟨pre, post, rfl, hpre, he⟩ := h
  exact ⟨_, exceptionHandler_first post ht hpre he, rfl, rfl⟩

theorem stopsFirst_of_handler {r : Handled} (ht : t.state = .running)
    (h : exceptionHandler P f es t = .ok r) : ∃ e, StopsFirst P f es e ∧ r.status = e.status P f := by
  obtain ⟨pre, e, post, hev, hpre, he, rfl⟩ := exceptionHandler_eq_ok ht h
  exact ⟨e, ⟨pre, post, hev, hpre, he⟩, rfl⟩

/-- The hooked call is told from the other stops by the result: a system call number. -/
theorem VeException.atHook_iff (he : e.Terminates P f) : e.AtHook P f ↔ 1 < e.status P f := by
  unfold AtHook status
  cases herr : isError P e.exs with
  | true => simp [statusException]
  | false =>
      by_cases hhook : e.IsHooked P f
      · obtain ⟨c, -, hc⟩ := Option.map_eq_some_iff.mp hhook.2
        have hgt := P.nrGt c
        rw [hc] at hgt
        simpa [hhook] using hgt
      · have hblock : e.IsBlock P := by
          rcases he.2 with h | h | h
          · exact absurd (herr.symm.trans h) (by decide)
          · exact h
          · exact absurd h hhook
        simp [hhook, hblock, statusBlockRequested]

/-- All descriptions of the stop agree on whether it is the hooked call. -/
theorem StopsFirst.atHook_congr {e' : VeException} (h : StopsFirst P f es e)
    (h' : StopsFirst P f es e') : e.AtHook P f ↔ e'.AtHook P f := by
  let t : VeThread := ⟨.running, 0, fun _ => 0, [], []⟩
  obtain ⟨r, hr, hstatus, -⟩ := h.handler (t := t) rfl
  obtain ⟨r', hr', hstatus', -⟩ := h'.handler (t := t) rfl
  cases hr.symm.trans hr'
  obtain ⟨-, -, -, -, he⟩ := h
  obtain ⟨-, -, -, -, he'⟩ := h'
  rw [VeException.atHook_iff he, VeException.atHook_iff he', ← hstatus, ← hstatus']

/-! ## What the two commands promise -/

/-- The VE function of the command is started. -/
def Starts (addr : BitVec 64) (env : Env) (t : VeThread) : Prop :=
  ∃ s, doCall addr env env.machine t = .ok s

/-- The open-context command succeeds only at `clone`. At another stop it fails, whatever a
    clone request would do, and leaves the VE thread where it stopped. -/
structure OpenContextHooked (P : Platform) (addr : BitVec 64) (env : Env) (t : VeThread) :
    Prop where
  ok : ∀ o, Handler.exec P (.callOpenContext addr) env t = .ok o → o.result.status = .ok →
    ∃ e, StopsFirst P .hookClone env.events e ∧ e.AtHook P .hookClone
  otherwise : ∀ s r e, doCall addr env env.machine t = .ok s →
    exceptionHandler P .hookClone env.events s.thread = .ok r →
    StopsFirst P .hookClone env.events e → ¬ e.AtHook P .hookClone →
    ∃ o, o.result.status ≠ .ok ∧ o.thread = r.thread ∧
      ∀ semInit clone newctx, Handler.exec P (.callOpenContext addr)
        { env with semInit := semInit, clone := clone, newctx := newctx } t = .ok o

/-- The exit command succeeds only at `exit_group`, and reports an error with the EXS
    value. -/
structure ExitHooked (P : Platform) (addr : BitVec 64) (env : Env) (t : VeThread) : Prop where
  ok : ∀ o, Handler.exec P (.exitProc addr) env t = .ok o → o.result.status = .ok →
    ∃ e, StopsFirst P .exit env.events e ∧ e.AtHook P .exit
  error : ∀ e, Starts addr env t → StopsFirst P .exit env.events e → isError P e.exs = true →
    ∃ o, Handler.exec P (.exitProc addr) env t = .ok o ∧ o.result = ⟨e.exs, .exception⟩

variable {addr : BitVec 64} {env : Env} {o : Outcome}

/-- The open-context command that returns has succeeded. -/
theorem exec_callOpenContext_ok (h : Handler.exec P (.callOpenContext addr) env t = .ok o) :
    o.result.status = .ok ∧ ∃ e, StopsFirst P .hookClone env.events e := by
  obtain ⟨s, hdo, h₁⟩ := Except.bind_eq_ok.mp h
  obtain ⟨req, hreq, h₂⟩ := Except.bind_eq_ok.mp h₁
  obtain ⟨tid, -, h₃⟩ := Except.bind_eq_ok.mp h₂
  obtain ⟨r, -, h₄⟩ := Except.bind_eq_ok.mp h₃
  obtain ⟨e, he, -⟩ := stopsFirst_of_handler (doCall_running hdo) hreq
  refine ⟨?_, e, he⟩
  split at h₄
  · cases h₄
  · cases h₄
    rfl

/-- The exit command succeeds wherever the exception handler stops. -/
theorem exec_exitProc_ok (hdo : Starts addr env t) (h : StopsFirst P .exit env.events e) :
    ∃ o, Handler.exec P (.exitProc addr) env t = .ok o ∧ o.result = ⟨0, .ok⟩ := by
  obtain ⟨s, hs⟩ := hdo
  obtain ⟨r, hr, hstatus, -⟩ := h.handler (doCall_running hs)
  obtain ⟨-, -, -, -, he⟩ := h
  have hne : r.status ≠ 0 := by
    rw [hstatus]
    exact VeException.status_ne_zero_iff.mpr he.2
  obtain ⟨⟨args, vh⟩, hcopy⟩ := copyoutStopped_ok hs
  simp only [Handler.exec, exitProcHandler, hs, hr, hne, hcopy, bind, Except.bind, pure, Except.pure,
    if_false]
  exact ⟨_, rfl, rfl⟩

theorem stopsFirst_of_exitProc (h : Handler.exec P (.exitProc addr) env t = .ok o) :
    ∃ e, StopsFirst P .exit env.events e := by
  obtain ⟨s, hdo, h₁⟩ := Except.bind_eq_ok.mp h
  obtain ⟨r, hr, -⟩ := Except.bind_eq_ok.mp h₁
  obtain ⟨e, he, -⟩ := stopsFirst_of_handler (doCall_running hdo) hr
  exact ⟨e, he⟩

theorem openContextHooked_iff (P : Platform) (addr : BitVec 64) (env : Env) (t : VeThread) :
    OpenContextHooked P addr env t ↔ (Starts addr env t → OnlyHooked P .hookClone env.events) := by
  constructor
  · rintro h ⟨s, hs⟩ e he
    by_contra hnot
    obtain ⟨r, hr, -, -⟩ := he.handler (doCall_running hs)
    obtain ⟨o, hstatus, -, hexec⟩ := h.otherwise s r e hs hr he hnot
    exact hstatus (exec_callOpenContext_ok (hexec env.semInit env.clone env.newctx)).1
  · intro h
    constructor
    case ok =>
      intro o ho _
      obtain ⟨-, e, he⟩ := exec_callOpenContext_ok ho
      obtain ⟨s, hs, -⟩ := Except.bind_eq_ok.mp ho
      exact ⟨e, he, h ⟨s, hs⟩ e he⟩
    case otherwise =>
      intro s r e hs hr he hnot
      exact absurd (h ⟨s, hs⟩ e he) hnot

theorem exitHooked_iff (P : Platform) (addr : BitVec 64) (env : Env) (t : VeThread) :
    ExitHooked P addr env t ↔ (Starts addr env t → OnlyHooked P .exit env.events) := by
  constructor
  · intro h hs e he
    obtain ⟨o, ho, hresult⟩ := exec_exitProc_ok hs he
    obtain ⟨e', he', hook⟩ := h.ok o ho (by rw [hresult])
    exact (he.atHook_congr he').mpr hook
  · intro h
    constructor
    case ok =>
      intro o ho _
      obtain ⟨e, he⟩ := stopsFirst_of_exitProc ho
      obtain ⟨s, hs, -⟩ := Except.bind_eq_ok.mp ho
      exact ⟨e, he, h ⟨s, hs⟩ e he⟩
    case error =>
      intro e hs he herr
      exact absurd (herr.symm.trans (h hs e he).1) (by decide)

/-- The two commands succeed only at the call they hook if and only if the exception
    handler stops nowhere else. -/
theorem hooked_commands_iff (P : Platform) (addr : BitVec 64) (env : Env) (t : VeThread) :
    (OpenContextHooked P addr env t ↔
      (Starts addr env t → OnlyHooked P .hookClone env.events)) ∧
    (ExitHooked P addr env t ↔ (Starts addr env t → OnlyHooked P .exit env.events)) :=
  ⟨openContextHooked_iff P addr env t, exitHooked_iff P addr env t⟩

/-- The VE thread comes to a block request, which is no clone request, and then to another
    one. -/
def noCloneEnv : Env :=
  { Env.plain [] [.raised (.blockRequest 0 0x8000), .raised (.blockRequest 0 0x8000)] with
    newctx := 0xc000 }

/-- The VE thread ends in a machine check. -/
def machineCheckEnv : Env :=
  Env.plain [] [.raised { exs := 0x200, sysnum := 0, args := fun _ => 0 }]

/-- At a block request the open-context command answers the VE thread with the ID of a new
    thread and returns a new context; at a machine check the exit command succeeds. -/
theorem hooked_commands_other_stop :
    let t : VeThread := ⟨.blocked, 0x10000, fun _ => 0, [], []⟩
    (∃ o, Handler.exec linuxPlatform (.callOpenContext 0x1000) noCloneEnv t = .ok o ∧
      o.result = ⟨0xc000, .ok⟩ ∧ .unBlock nrSysve 1 ∈ o.thread.answers) ∧
    ¬ OpenContextHooked linuxPlatform 0x1000 noCloneEnv t ∧
    (∃ o, Handler.exec linuxPlatform (.exitProc 0x1000) machineCheckEnv t = .ok o ∧
      o.result = ⟨0, .ok⟩) ∧
    ¬ ExitHooked linuxPlatform 0x1000 machineCheckEnv t := by
  intro t
  have hopen : (Handler.exec linuxPlatform (.callOpenContext 0x1000) noCloneEnv t).toOption.map
      (fun o => (o.result, decide (.unBlock nrSysve 1 ∈ o.thread.answers))) =
        some (⟨0xc000, .ok⟩, true) := by
    decide +kernel
  have hexit : (Handler.exec linuxPlatform (.exitProc 0x1000) machineCheckEnv t).toOption.map
      Outcome.result = some ⟨0, .ok⟩ := by
    decide +kernel
  obtain ⟨o, ho, hpair⟩ := Option.map_eq_some_iff.mp hopen
  obtain ⟨hresult, hanswer⟩ := Prod.mk.inj hpair
  obtain ⟨o', ho', hresult'⟩ := Option.map_eq_some_iff.mp hexit
  have hexec := Except.toOption_eq_some.mp ho
  have hexec' := Except.toOption_eq_some.mp ho'
  have hblock : ¬ (VeException.blockRequest 0 0x8000).AtHook linuxPlatform .hookClone := by
    rintro ⟨-, -, hnum⟩
    cases hnum
  have hstop : StopsFirst linuxPlatform .hookClone noCloneEnv.events (.blockRequest 0 0x8000) :=
    ⟨[], _, rfl, by simp, by decide, .inr (.inl (by decide))⟩
  refine ⟨⟨o, hexec, hresult, of_decide_eq_true hanswer⟩, fun h => ?_,
    ⟨o', hexec', hresult'⟩, fun h => ?_⟩
  · obtain ⟨e, he, hook⟩ := h.ok o hexec (by rw [hresult])
    exact hblock ((he.atHook_congr hstop).mp hook)
  · have hstart : Starts 0x1000 machineCheckEnv t := by
      obtain ⟨s, hs, -⟩ := Except.bind_eq_ok.mp hexec'
      exact ⟨s, hs⟩
    obtain ⟨o'', ho'', herr⟩ := h.error _ hstart ⟨[], [], rfl, by simp, by decide, .inl (by decide)⟩
      (by decide)
    cases ho''.symm.trans hexec'
    rw [hresult'] at herr
    cases herr

end Veo
