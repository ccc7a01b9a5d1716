-- SUMMARY: The event loop makes progress: a bound on the steps of the pseudo thread, and what holds when it cannot go on.
import Veo.ThreadContext.Shutdown
import Veo.Handlers.Throws

/-!
# Progress of the event loop

Every step of the pseudo thread is paid for by a request: each accepted request buys the
steps that pop it, run it and complete it, and the failure sequence is part of the price.
So the pseudo thread takes no more steps than the requests account for, and when it has to
stop it has either ended or completed all of them.
-/

namespace Veo

open Transition

variable {T : Type} [DecidableEq T] {P : Platform} {s s' : Sys T} {a : Act T}

/-- The steps that are due in a phase, apart from the requests in the queue. -/
def Pseudo.due : Pseudo → Nat
  | .run => 5
  | .failState => 4
  | .failClose => 3
  | .start | .complete | .failPush | .drainPush => 2
  | .startFailed | .test | .drain | .closeReply => 1
  | .pop | .returned | .exited | .aborted => 0

/-- The steps that the pseudo thread can take without a new request. -/
def Sys.due (s : Sys T) : Nat := 6 * s.comq.request.queue.length + s.pseudo.due

theorem Completes.due {p q : Pseudo} (h : Completes p q) : q.due < p.due := by
  cases h <;> decide

theorem Step.due_pseudo {env : Env} (h : Step P s (.pseudo env) s') : s'.due < s.due := by
  cases h with
  | startBlock env r v th hpc | startFail env r hpc | startExit env hpc | testBlocked env hpc
  | testReturned env hpc | runClose env c hpc | failState env hpc | drainEmpty env hpc =>
      simp [Sys.due, hpc, Pseudo.due]
  | failClose env hpc => simp [Sys.due, hpc, Pseudo.due]
  | abort env hpc => rcases hpc with hpc | hpc <;> simp [Sys.due, hpc, Pseudo.due]
  | run env c f o hpc =>
      by_cases hrv : o.rv = 0 <;> simp [Sys.due, hpc, hrv, Pseudo.due]
  | complete env c next hpc hcmd => simpa [Sys.due] using hpc.due
  | pop env c q hpc hpop | drainPop env c q hpc hpop =>
      obtain ⟨hqueue, -, -⟩ := CommQueue.popRequest_eq_some hpop
      simp only [Sys.due, hqueue, hpc, Pseudo.due, List.length_cons]
      omega

/-- A caller adds to the work of the pseudo thread by pushing a request. -/
theorem Step.due_caller (h : Step P s a s') (ha : a.isPseudo = false) :
    s'.due + 6 * s.accepted.length = s.due + 6 * s'.accepted.length := by
  cases h with
  | push t c k hpc =>
      simp only [Sys.due, CommQueue.pushRequest_request, List.length_append, List.length_singleton]
      omega
  | peekTake t id c q hpc hfind hmem
  | peekLost t id c q hpc hfind hmem
  | waitTake t id w c q hpc hfind
  | exitTake t id c q hpc hfind
  | closeTake t id c q hpc hfind =>
      obtain ⟨-, hq, -⟩ := CommQueue.findCompletion_eq_some hfind
      simp [Sys.due, hq]
  | _ => first | rfl | cases ha

/-- The account of a run: the steps taken by the pseudo thread and those that are due. -/
theorem runList_due {t : VeThread} {as : List (Act T)}
    (h : runList (Sys.step P) (fun _ _ => true) (Sys.init t) as = some s) :
    as.countP Act.isPseudo + s.due ≤ 2 + 6 * s.accepted.length := by
  refine runList_induction (I := fun as s => as.countP Act.isPseudo + s.due ≤
    2 + 6 * s.accepted.length) (by simp [Sys.due, Sys.init, CommQueue.init, Pseudo.due]) ?_ h
  intro as s a s' hle _ hstep
  have hcases := Sys.step_cases hstep
  rw [List.countP_append, List.countP_singleton]
  cases ha : a.isPseudo with
  | true =>
      cases a with
      | pseudo env =>
          have hlt := hcases.due_pseudo
          have hacc := hcases.callerFrame.accepted
          rw [hacc]
          simp only [if_true]
          omega
      | _ => cases ha
  | false =>
      have heq := hcases.due_caller ha
      simp only [Bool.false_eq_true, if_false]
      omega

/-! ## When the pseudo thread cannot go on -/

/-- The pseudo thread has the command that it runs or completes. -/
def Sys.Holding (s : Sys T) : Prop :=
  s.pseudo = .run ∨ s.pseudo.holdsResult = true → s.command.isSome = true

theorem Step.holding (h : Step P s a s') (hs : s.Holding) : s'.Holding := by
  intro hphase
  cases a with
  | pseudo env =>
      cases h with
      | pop | run | runClose | drainPop => rfl
      | failState env hpc | failClose env hpc => exact hs (.inr (by rw [hpc]; rfl))
      | complete env c next hpc hcmd =>
          obtain ⟨-, hrun, hholds, -⟩ := hpc.cases
          rcases hphase with hphase | hphase
          · exact absurd hphase hrun
          · exact absurd (hphase.symm.trans hholds) (by decide)
      | _ => rcases hphase with hphase | hphase <;> cases hphase
  | start t op =>
      have hframe := h.pseudoFrame (by simp)
      rw [hframe.command]
      exact hs (hframe.pseudo ▸ hphase)
  | caller t =>
      have hframe := h.pseudoFrame (by simp)
      rw [hframe.command]
      exact hs (hframe.pseudo ▸ hphase)

theorem Reachable.holding (h : Reachable P s) : s.Holding :=
  h.invariant (fun _ hphase => by rcases hphase with hphase | hphase <;> cases hphase)
    fun _ _ _ _ hs hst => hst.holding hs

/-- The wait of the driver fails. -/
def Env.Broken (env : Env) : Prop := env.events = [.failed 0]

def brokenDriver : Env := Env.plain [] [.failed 0]

theorem brokenDriver_broken : brokenDriver.Broken := rfl

section Broken
omit [DecidableEq T]
variable {env : Env}

theorem exceptionHandler_broken (henv : env.Broken) (f : SyscallFilter) {t : VeThread}
    (ht : t.state = .running) :
    exceptionHandler P f env.events t = .error (.thrown "vedl_wait_exception failed" 0) := by
  have hquiet : ∀ w ∈ ([] : List WaitResult), w.Quiet P f := fun _ hw => by cases hw
  rw [henv]
  exact exceptionHandler_failed ht hquiet

theorem liftFault_eq_error {α : Type} {x : Except Fault α} {e : Stop}
    (h : liftFault x = .error e) : ∃ f, e = .fault f := by
  cases x with
  | ok a => cases h
  | error f =>
      cases h
      exact ⟨f, rfl⟩

theorem doCall_eq_error {addr : BitVec 64} {env : Env} {m : Machine} {t : VeThread} {e : Stop}
    (h : doCall addr env m t = .error e) : ∃ f, e = .fault f := by
  rcases Except.bind_eq_error.mp h with h₁ | ⟨⟨args, sp⟩, -, h₂⟩
  · exact liftFault_eq_error h₁
  · rcases Except.bind_eq_error.mp h₂ with h₃ | ⟨regs, -, h₄⟩
    · exact liftFault_eq_error h₃
    · split at h₄ <;> cases h₄
      exact ⟨_, rfl⟩

/-- A command that starts the VE thread and then waits for it ends, if the wait fails. -/
theorem bind_broken (henv : env.Broken) {addr : BitVec 64} {t : VeThread} (f : SyscallFilter)
    {k : Started → Handled → Except Stop Outcome} :
    ∃ e, (do let s ← doCall addr env env.machine t
             let r ← exceptionHandler P f env.events s.thread
             k s r) = .error e ∧ ∀ u, e ≠ .waiting u := by
  cases hcall : doCall addr env env.machine t with
  | error e =>
      obtain ⟨x, rfl⟩ := doCall_eq_error hcall
      exact ⟨.fault x, rfl, nofun⟩
  | ok s =>
      have hthrown := exceptionHandler_broken (P := P) henv f (doCall_running hcall)
      refine ⟨.thrown "vedl_wait_exception failed" 0, ?_, nofun⟩
      change (exceptionHandler P f env.events s.thread >>= k s) = _
      rw [hthrown]
      rfl

/-- The commands that run on the VE thread. -/
def Handler.runsVe : Handler → Bool
  | .callAsync _ | .callOpenContext _ | .exitProc _ => true
  | .callVHAsync _ | .asyncReadMem .. | .asyncWriteMem .. => false

theorem exec_broken_ve (henv : env.Broken) {f : Handler} (hf : f.runsVe = true) (t : VeThread) :
    ∃ e, f.exec P env t = .error e ∧ ∀ u, e ≠ .waiting u := by
  cases f with
  | callAsync addr => exact bind_broken henv .default
  | callOpenContext addr => exact bind_broken henv .hookClone
  | exitProc addr => exact bind_broken henv .exit
  | callVHAsync func | asyncReadMem dst src size | asyncWriteMem dst src size => cases hf

theorem exec_broken (henv : env.Broken) (f : Handler) (t u : VeThread) :
    f.exec P env t ≠ .error (.waiting u) := by
  cases hf : f.runsVe with
  | true =>
      obtain ⟨e, hexec, he⟩ := exec_broken_ve (P := P) henv hf t
      rw [hexec]
      exact fun h => he u (Except.error.inj h)
  | false =>
      cases f with
      | callVHAsync func | asyncReadMem dst src size | asyncWriteMem dst src size =>
          intro h
          cases h
      | callAsync addr | callOpenContext addr | exitProc addr => cases hf

end Broken

/-- A pseudo thread that cannot go on with a broken driver has ended, or waits for a request. -/
theorem Reachable.pseudo_rest (h : Reachable P s) {env : Env} (henv : env.Broken)
    (hstep : s.pseudoStep P env = none) :
    s.pseudo.finished = true ∨ (s.pseudo = .pop ∧ s.comq.request.queue = []) := by
  have hheld := h.holding
  unfold Sys.pseudoStep at hstep
  split at hstep
  case h_1 hpc =>
    exfalso
    unfold Sys.startEventLoop at hstep
    split at hstep
    · split at hstep
      · split at hstep <;> cases hstep
      · cases hstep
    · rename_i u hwait
      by_cases hrun : s.thread.state = .running
      · cases (exceptionHandler_broken henv .default hrun).symm.trans hwait
      · simp [defaultExceptionHandler, exceptionHandler, exceptionLoop, hrun, pure, Except.pure]
          at hwait
    · cases hstep
  case h_4 hpc =>
    exact .inr ⟨hpc, CommQueue.popRequest_eq_none.mp (Option.map_eq_none_iff.mp hstep)⟩
  case h_5 hpc =>
    exfalso
    obtain ⟨c, hc⟩ := Option.isSome_iff_exists.mp (hheld (.inl hpc))
    rw [hc] at hstep
    simp only [Option.bind_some, Sys.runCommand] at hstep
    split at hstep
    · cases hstep
    · split at hstep
      · cases hstep
      · rename_i hwait
        exact exec_broken henv _ _ _ hwait
      · cases hstep
  case h_6 hpc | h_9 hpc | h_11 hpc | h_12 hpc =>
    exfalso
    obtain ⟨c, hc⟩ := Option.isSome_iff_exists.mp (hheld (.inr (by rw [hpc]; rfl)))
    simp [Sys.complete, hc] at hstep
  case h_10 hpc =>
    exfalso
    split at hstep <;> cases hstep
  case h_13 hpc | h_14 hpc | h_15 hpc => exact .inl (by rw [hpc]; rfl)
  all_goals cases hstep

/-- A pseudo thread with an empty queue and empty hands has completed all requests. -/
theorem Reachable.drained (h : Reachable P s) (hempty : s.comq.request.queue = [])
    (hcmd : s.command = none) : s.Drained P := by
  have hcompleted := h.completed hempty hcmd
  refine ⟨hempty, hcompleted, fun a ha hnot t w hpc => ?_⟩
  rcases hcompleted a ha with ⟨c, hc, rfl⟩ | ⟨d, hd, heq⟩
  · exact Sys.waiter_enabled hpc hc rfl
  · exact absurd heq (hnot d hd)

/-- In any run the pseudo thread takes at most six steps for each accepted request, and two
    to start. If no environment lets it go on, it has ended, or it waits for a request and has
    completed all it ever accepted, and nobody is kept waiting for one of these. -/
theorem eventLoop_settles {t : VeThread} {as : List (Act T)}
    (h : runList (Sys.step P) (fun _ _ => true) (Sys.init t) as = some s) :
    as.countP Act.isPseudo ≤ 6 * s.accepted.length + 2 ∧
    ((∀ env, s.step P (.pseudo env) = none) →
      s.pseudo.finished = true ∨ (s.pseudo = .pop ∧ s.Drained P)) := by
  have hreach : Reachable P s := ⟨t, run_of_runList (fun _ _ _ => trivial) h⟩
  refine ⟨?_, fun hrest => ?_⟩
  · have hdue := runList_due h
    omega
  · rcases hreach.pseudo_rest brokenDriver_broken (hrest _) with hfin | ⟨hpop, hempty⟩
    · exact .inl hfin
    · refine .inr ⟨hpop, hreach.drained hempty ?_⟩
      exact hreach.wf.held.idle (by simp [hpop]) (by rw [hpop]; rfl) (by simp [hpop])

/-- A VH call is submitted, and the pseudo thread serves it. -/
def vhCallServed : List (Act Bool) :=
  .start true (.callVHAsync 1) :: List.replicate 5 (.caller true) ++
    List.replicate 6 (.pseudo (.plain [] [.raised (.blockRequest 0 0x8000)]))

theorem eventLoop_settles_served :
    ∃ s : Sys Bool,
      runList (Sys.step linuxPlatform) (fun _ _ => true) (Sys.init newThread) vhCallServed = some s ∧
      s.accepted.length = 1 ∧ vhCallServed.countP Act.isPseudo ≤ 6 * s.accepted.length + 2 ∧
      (s.pseudo.finished = true ∨ (s.pseudo = .pop ∧ s.Drained linuxPlatform)) := by
  have heval : ((runList (Sys.step linuxPlatform) (fun _ _ => true) (Sys.init newThread)
      vhCallServed).map fun s : Sys Bool => (s.accepted.length, s.pseudo, s.comq.request.queue)) =
      some (1, .pop, []) := by decide
  obtain ⟨s, hrun, heq⟩ := Option.map_eq_some_iff.mp heval
  obtain ⟨hlen, hpseudo⟩ := Prod.mk.inj heq
  obtain ⟨hpop, hqueue⟩ := Prod.mk.inj hpseudo
  have hrest : ∀ env, s.step linuxPlatform (.pseudo env) = none := by
    intro env
    simp only [Sys.step, Sys.pseudoStep, hpop, Option.map_eq_none_iff]
    exact CommQueue.popRequest_eq_none.mpr hqueue
  have hsettles := eventLoop_settles hrun
  exact ⟨s, hrun, hlen, hsettles.1, hsettles.2 hrest⟩

end Veo
