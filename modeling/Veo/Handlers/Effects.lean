-- SUMMARY: What the handlers leave of the VE thread: its state, and the recorded stack pointer.
import Veo.Handlers

/-!
# What the handlers leave of the VE thread

A handler is entered with a blocked VE thread. If it returns zero the thread is blocked
again, except after the exit command. The recorded stack pointer is the one of the last
block request, as long as every block request is collected.
-/

namespace Veo

variable {P : Platform} {env : Env} {t : VeThread} {o : Outcome} {addr : BitVec 64}

/-! ## Streams that end in a block request -/

/-- The first terminating exception of the stream is a block request. -/
def StopsAtBlock (P : Platform) (f : SyscallFilter) (es : List WaitResult) : Prop :=
  ∃ pre e post, es = pre ++ .raised e :: post ∧ (∀ w ∈ pre, w.Quiet P f) ∧ e.Terminates P f ∧
    e.IsBlock P

theorem defaultExceptionHandler_block {es : List WaitResult} {r : Handled}
    (ht : t.state = .running) (h : defaultExceptionHandler P es t = .ok r)
    (hstatus : r.status = statusBlockRequested) :
    ∃ (e : VeException) (u : VeThread), e.IsBlock P ∧ r.thread = e.after P .default u := by
  obtain ⟨pre, e, post, -, -, -, rfl⟩ := exceptionHandler_eq_ok ht h
  exact ⟨e, _, (VeException.status_eq_block_iff.mp hstatus).2, rfl⟩

/-- The state in which a filter leaves a thread that was running. -/
theorem exceptionHandler_state {f : SyscallFilter} {es : List WaitResult} {r : Handled}
    (ht : t.state = .running) (h : exceptionHandler P f es t = .ok r) :
    r.thread.state = .blocked ∨ r.thread.state = .running := by
  obtain ⟨pre, e, post, -, hpre, -, rfl⟩ := exceptionHandler_eq_ok ht h
  obtain ⟨-, hrunning⟩ := exceptionHandler_append [] ht hpre
  by_cases hblock : e.IsBlock P
  · exact .inl (VeException.after_state_of_block hblock)
  · exact .inr ((VeException.after_state_of_not_block hblock).trans hrunning)

/-! ## The state after a handler -/

theorem exec_callAsync_state (h : Handler.exec P (.callAsync addr) env t = .ok o) :
    o.thread.state = .blocked ∨ (o.rv ≠ 0 ∧ o.thread.state = .running) := by
  obtain ⟨s, pre, e, post, hdo, hev, hpre, he⟩ := callAsync_eq_ok h
  cases herr : isError P e.exs with
  | false =>
      obtain ⟨o', ho', -, -, hstate, -⟩ := callAsync_block hdo hev hpre he herr
      cases ho'.symm.trans h
      exact .inl hstate
  | true =>
      obtain ⟨o', ho', -, hrv, hthread⟩ := callAsync_error hdo hev hpre he herr
      cases ho'.symm.trans h
      obtain ⟨-, hrunning⟩ := exceptionHandler_append [] (doCall_running hdo) hpre
      by_cases hblock : e.IsBlock P
      · exact .inl (hthread ▸ VeException.after_state_of_block hblock)
      · refine .inr ⟨by rw [hrv]; decide, ?_⟩
        rw [hthread, VeException.after_state_of_not_block hblock, hrunning]

theorem exec_callOpenContext_state (h : Handler.exec P (.callOpenContext addr) env t = .ok o) :
    o.thread.state = .blocked := by
  obtain ⟨s, hdo, h₁⟩ := Except.bind_eq_ok.mp h
  obtain ⟨req, hreq, h₂⟩ := Except.bind_eq_ok.mp h₁
  obtain ⟨tid, htid, h₃⟩ := Except.bind_eq_ok.mp h₂
  obtain ⟨r, hr, h₄⟩ := Except.bind_eq_ok.mp h₃
  split at h₄
  · cases h₄
  · rename_i hstatus
    cases h₄
    obtain ⟨e, u, hblock, hthread⟩ := defaultExceptionHandler_block rfl hr (not_not.mp hstatus)
    exact hthread ▸ VeException.after_state_of_block hblock

/-- The exit command always returns zero, with the VE thread blocked if it came to a block
    request and running otherwise. -/
theorem exec_exitProc {f : Handler} (hf : f = .exitProc addr) (h : f.exec P env t = .ok o) :
    o.rv = 0 ∧ (StopsAtBlock P .exit env.events → o.thread.state = .blocked) ∧
      (o.thread.state = .blocked ∨ o.thread.state = .running) := by
  subst hf
  obtain ⟨s, hdo, h₁⟩ := Except.bind_eq_ok.mp h
  obtain ⟨r, hr, h₂⟩ := Except.bind_eq_ok.mp h₁
  have hrunning := doCall_running hdo
  obtain ⟨pre, e, post, hev, hpre, he, hreq⟩ := exceptionHandler_eq_ok hrunning hr
  have hne : r.status ≠ 0 := by
    rw [hreq]
    exact VeException.status_ne_zero_iff.mpr he.2
  rw [if_neg hne] at h₂
  obtain ⟨⟨args, vh⟩, -, h₃⟩ := Except.bind_eq_ok.mp h₂
  cases h₃
  refine ⟨rfl, ?_, exceptionHandler_state hrunning hr⟩
  rintro ⟨pre', e', post', hev', hpre', he', hblock⟩
  have hfirst := exceptionHandler_first post' hrunning hpre' he'
  rw [← hev', hr] at hfirst
  cases hfirst
  exact VeException.after_state_of_block hblock

/-- A handler that works on the VH only leaves the VE thread alone. -/
theorem exec_thread_of_vh {f : Handler}
    (hf : (∃ a, f = .callVHAsync a) ∨ (∃ d s n, f = .asyncReadMem d s n) ∨ ∃ d s n, f = .asyncWriteMem d s n)
    (h : f.exec P env t = .ok o) : o.thread = t := by
  rcases hf with ⟨a, rfl⟩ | ⟨d, s, n, rfl⟩ | ⟨d, s, n, rfl⟩ <;> cases h <;> rfl

/-- No handler leaves the context in the state EXIT: only the event loop and the close request
    set it. -/
theorem exec_state {f : Handler} (ht : t.state = .blocked) (h : f.exec P env t = .ok o) :
    o.thread.state = .blocked ∨ o.thread.state = .running := by
  cases f with
  | callAsync addr => exact (exec_callAsync_state h).imp_right And.right
  | callOpenContext addr => exact .inl (exec_callOpenContext_state h)
  | exitProc addr => exact (exec_exitProc rfl h).2.2
  | callVHAsync a => exact .inl (exec_thread_of_vh (.inl ⟨a, rfl⟩) h ▸ ht)
  | asyncReadMem d s n => exact .inl (exec_thread_of_vh (.inr (.inl ⟨d, s, n, rfl⟩)) h ▸ ht)
  | asyncWriteMem d s n => exact .inl (exec_thread_of_vh (.inr (.inr ⟨d, s, n, rfl⟩)) h ▸ ht)

/-- After a handler that returned zero the VE thread is blocked, unless the handler is the
    exit command and the VE thread did not come to a block request. -/
theorem exec_blocked {f : Handler} (ht : t.state = .blocked) (h : f.exec P env t = .ok o)
    (hrv : o.rv = 0) (hexit : ∀ addr, f = .exitProc addr → StopsAtBlock P .exit env.events) :
    o.thread.state = .blocked := by
  cases f with
  | callAsync addr =>
      rcases exec_callAsync_state h with hb | ⟨hne, -⟩
      · exact hb
      · exact absurd hrv hne
  | callOpenContext addr => exact exec_callOpenContext_state h
  | exitProc addr => exact (exec_exitProc rfl h).2.1 (hexit addr rfl)
  | callVHAsync a => exact exec_thread_of_vh (.inl ⟨a, rfl⟩) h ▸ ht
  | asyncReadMem d s n => exact exec_thread_of_vh (.inr (.inl ⟨d, s, n, rfl⟩)) h ▸ ht
  | asyncWriteMem d s n => exact exec_thread_of_vh (.inr (.inr ⟨d, s, n, rfl⟩)) h ▸ ht

/-! ## The recorded stack pointer -/

/-- The most recent block request among the exceptions of the VE thread. -/
def lastBlock (P : Platform) (seen : List VeException) : Option VeException :=
  (seen.filter fun e => decide (e.IsBlock P)).getLast?

/-- The recorded stack pointer is the one of the most recent block request. -/
def SpFollows (P : Platform) (t : VeThread) : Prop :=
  ∃ e, lastBlock P t.seen = some e ∧ t.veSp = e.args argSp

theorem lastBlock_concat {seen : List VeException} {e : VeException} (h : e.IsBlock P) :
    lastBlock P (seen ++ [e]) = some e := by
  simp [lastBlock, h]

/-- Collecting the return value at a block request records its stack pointer. -/
theorem spFollows_collect {f : SyscallFilter} {e : VeException} (h : e.IsBlock P) :
    SpFollows P { e.after P f t with veSp := e.args argSp } :=
  ⟨e, lastBlock_concat h, rfl⟩

/-- Every handler that returned zero, except the ones of the open-context request and of
    the exit command, keeps the recorded stack pointer right. -/
theorem exec_spFollows {f : Handler} (hopen : ∀ addr, f ≠ .callOpenContext addr)
    (hexit : ∀ addr, f ≠ .exitProc addr) (ht : SpFollows P t) (h : f.exec P env t = .ok o)
    (hrv : o.rv = 0) : SpFollows P o.thread := by
  cases f with
  | callAsync addr =>
      obtain ⟨s, pre, e, post, hdo, hev, hpre, he⟩ := callAsync_eq_ok h
      cases herr : isError P e.exs with
      | false =>
          obtain ⟨o', ho', -, -, -, hsp, hseen⟩ := callAsync_block hdo hev hpre he herr
          cases ho'.symm.trans h
          refine ⟨e, ?_, hsp⟩
          rw [hseen]
          exact lastBlock_concat (VeException.block_of_terminates he herr)
      | true =>
          obtain ⟨o', ho', -, hone, -⟩ := callAsync_error hdo hev hpre he herr
          cases ho'.symm.trans h
          exact absurd (hrv.symm.trans hone) (by decide)
  | callOpenContext addr => exact absurd rfl (hopen addr)
  | exitProc addr => exact absurd rfl (hexit addr)
  | callVHAsync a => exact exec_thread_of_vh (.inl ⟨a, rfl⟩) h ▸ ht
  | asyncReadMem d s n => exact exec_thread_of_vh (.inr (.inl ⟨d, s, n, rfl⟩)) h ▸ ht
  | asyncWriteMem d s n => exact exec_thread_of_vh (.inr (.inr ⟨d, s, n, rfl⟩)) h ▸ ht

end Veo
