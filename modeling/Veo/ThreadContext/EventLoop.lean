-- SUMMARY: When every way out of the event loop leaves the context shut for good.
import Veo.ThreadContext.Shutdown

/-!
# The ways out of the event loop

The failure sequence of `eventLoop` sets the state, closes the queue and drains it. The
other ways out do not: `startEventLoop` returns if the VE thread does not come to its first
block request, and the loop condition fails after an exit command that leaves the VE thread
running.
-/

namespace Veo

variable {T : Type} {P : Platform} {s s' : Sys T} {a : Act T}

/-- The condition on the steps of the pseudo thread: the first terminating event of a new
    VE thread is no error, an exit command comes back to a block request, and nobody is
    about to push when the drain finds the queue empty. -/
def Orderly (P : Platform) (s : Sys T) : Act T → Prop
  | .pseudo env =>
    (s.pseudo = .start → ∀ pre e post, env.events = pre ++ .raised e :: post →
      (∀ w ∈ pre, w.Quiet P .default) → e.Terminates P .default → isError P e.exs = false) ∧
    (s.pseudo = .run → ∀ c addr, s.command = some c → c.kind = .handler (.exitProc addr) →
      StopsAtBlock P .exit env.events) ∧
    (s.pseudo = .drain → s.comq.request.queue = [] → ∀ t c k, s.pc t ≠ .push c k)
  | _ => True

/-- The phases of the loop in which the VE thread is blocked. -/
def Pseudo.looping : Pseudo → Bool
  | .test | .pop | .run | .complete => true
  | _ => false

/-- The event loop under the condition: the VE thread is blocked whenever the loop tests it,
    and the loop returns only after the drain. -/
structure Sys.LoopOk (s : Sys T) : Prop where
  running : s.pseudo = .start → s.thread.state = .running
  blocked : s.pseudo.looping = true → s.thread.state = .blocked
  started : s.pseudo ≠ .startFailed
  returned : s.pseudo = .returned → s.Sealed ∧ s.thread.state = .exit

theorem collectReturnValue_state {t th : VeThread} {v : BitVec 64}
    (h : collectReturnValue t = .ok (v, th)) : th.state = t.state := by
  unfold collectReturnValue at h
  split at h
  · cases h
    rfl
  · cases h

/-- In the phases outside the loop only the phase matters. -/
theorem Sys.LoopOk.of_phase (hstart : s.pseudo ≠ .start) (hloop : s.pseudo.looping = false)
    (hfailed : s.pseudo ≠ .startFailed) (hret : s.pseudo ≠ .returned) : s.LoopOk where
  running := fun h => absurd h hstart
  blocked := fun h => by simp [hloop] at h
  started := hfailed
  returned := fun h => absurd h hret

/-- In the phases of the loop the VE thread has to be blocked. -/
theorem Sys.LoopOk.of_blocked (hloop : s.pseudo.looping = true)
    (hblocked : s.thread.state = .blocked) : s.LoopOk where
  running := fun h => by rw [h] at hloop; cases hloop
  blocked := fun _ => hblocked
  started := fun h => by rw [h] at hloop; cases hloop
  returned := fun h => by rw [h] at hloop; cases hloop

/-- A caller does not change what the pseudo thread is doing. -/
theorem Sys.LoopOk.of_caller [DecidableEq T] (h : Step P s a s') (hframe : PseudoFrame s s')
    (hs : s.LoopOk) : s'.LoopOk where
  running := fun hp => hframe.thread ▸ hs.running (hframe.pseudo ▸ hp)
  blocked := fun hp => hframe.thread ▸ hs.blocked (hframe.pseudo ▸ hp)
  started := hframe.pseudo ▸ hs.started
  returned := fun hp => by
    obtain ⟨hsealed, hexit⟩ := hs.returned (hframe.pseudo ▸ hp)
    exact ⟨h.isSealed hsealed, hframe.thread ▸ hexit⟩

variable [DecidableEq T]

/-- The steps of the pseudo thread. -/
theorem Step.loopOk_pseudo {env : Env} (h : Step P s (.pseudo env) s') (hf : s.Failing)
    (hs : s.LoopOk) (hg : Orderly P s (.pseudo env)) : s'.LoopOk := by
  cases h with
  | startBlock env r v th hpc hexec hstatus hcollect =>
      obtain ⟨e, u, hblock, hthread⟩ := defaultExceptionHandler_block (hs.running hpc) hexec hstatus
      refine .of_blocked rfl ((collectReturnValue_state hcollect).trans ?_)
      rw [hthread]
      exact VeException.after_state_of_block hblock
  | startFail env r hpc hexec hstatus =>
      -- the first terminating event would be an error
      obtain ⟨pre, e, post, hev, hpre, he, rfl⟩ := exceptionHandler_eq_ok (hs.running hpc) hexec
      have herr := hg.1 hpc pre e post hev hpre he
      exact absurd (VeException.status_eq_block_iff.mpr
        ⟨herr, VeException.block_of_terminates he herr⟩) hstatus
  | startExit env hpc => exact absurd hpc hs.started
  | testBlocked env hpc hblocked => exact .of_blocked rfl hblocked
  | testReturned env hpc hblocked => exact absurd (hs.blocked (by rw [hpc]; rfl)) hblocked
  | pop env c q hpc hpop => exact .of_blocked rfl (hs.blocked (by rw [hpc]; rfl))
  | run env c f o hpc hcmd hkind hexec =>
      by_cases hrv : o.rv = 0
      · have hblocked := exec_blocked (hs.blocked (by rw [hpc]; rfl)) hexec hrv
          fun addr hf => hg.2.1 hpc c addr hcmd (hf ▸ hkind)
        exact .of_blocked (by simp [hrv, Pseudo.looping]) hblocked
      · exact .of_phase (by simp [hrv]) (by simp [hrv, Pseudo.looping]) (by simp [hrv])
          (by simp [hrv])
  | complete env c next hpc hcmd =>
      rcases hpc.phases with ⟨hp, rfl⟩ | ⟨-, rfl⟩ | ⟨-, rfl⟩ | ⟨-, rfl⟩
      · exact .of_blocked rfl (hs.blocked (by rw [hp]; rfl))
      · exact .of_phase (by simp) rfl (by simp) (by simp)
      · exact .of_phase (by simp) rfl (by simp) (by simp)
      · exact .of_phase (by simp) rfl (by simp) (by simp)
  | drainEmpty env hpc hempty =>
      have hclosed := hf.closed (by rw [hpc]; rfl)
      have hexit := hf.exit (by rw [hpc]; rfl)
      constructor
      case returned => exact fun _ => ⟨⟨rfl, hclosed, hempty, hg.2.2 hpc hempty⟩, hexit⟩
      all_goals simp [Pseudo.looping]
  | abort env hpc
  | runClose env c hpc hcmd hkind
  | failState env hpc
  | failClose env hpc
  | drainPop env c q hpc hpop => exact .of_phase (by simp) rfl (by simp) (by simp)

theorem Step.loopOk (h : Step P s a s') (hf : s.Failing) (hs : s.LoopOk) (hg : Orderly P s a) :
    s'.LoopOk := by
  cases a with
  | pseudo env => exact h.loopOk_pseudo hf hs hg
  | start t op => exact .of_caller h (h.pseudoFrame (by simp)) hs
  | caller t => exact .of_caller h (h.pseudoFrame (by simp)) hs

/-- A context that is shut for good: the state is EXIT, the request queue is closed and
    drained, and a submitter that tests the state is refused. -/
structure Sys.Shut (P : Platform) (s : Sys T) : Prop where
  exit : s.thread.state = .exit
  closed : s.comq.request.status = .closed
  drained : s.Drained P
  refused : ∀ t f k, s.pc t = .test f k →
    s.step P (.caller t) = some (s.goto t (k.next requestIdInvalid))

/-- In every run that meets the condition, a context whose event loop has returned is shut
    for good. -/
theorem eventLoop_shut (t : VeThread) (h : Transition.Run (Sys.step P) (Orderly P) (Sys.init t) s)
    (hret : s.pseudo = .returned) : s.Shut P := by
  have hinv : s.Failing ∧ s.LoopOk := by
    refine h.invariant (I := fun s => s.Failing ∧ s.LoopOk) ?_ ⟨.of_not_failing rfl, ?_⟩
    · intro s a s' hs hg hst
      have hstep := Sys.step_cases hst
      exact ⟨hstep.failing hs.1, hstep.loopOk hs.1 hs.2 hg⟩
    · constructor
      case running => exact fun _ => rfl
      all_goals simp [Sys.init, Pseudo.looping]
  obtain ⟨hsealed, hexit⟩ := hinv.2.returned hret
  refine ⟨hexit, hsealed.closed, hsealed.drained ⟨t, h.reaches⟩, fun u f k hpc => ?_⟩
  simp [Sys.step, Sys.callerStep, hpc, hexit]

/-- A check that implies the condition: no event is an error, no exit command is run, and
    the two callers do not build a command during the drain. -/
def orderlyCheck (P : Platform) (s : Sys Bool) : Act Bool → Bool
  | .pseudo env =>
    (env.events.all fun
      | .raised e => !isError P e.exs
      | _ => true) &&
    (s.command.all fun c =>
      match c.kind with
      | .handler (.exitProc _) => false
      | _ => true) &&
    (s.pseudo != .drain || ((s.pc true).building.isNone && (s.pc false).building.isNone))
  | _ => true

theorem orderly_of_check {s : Sys Bool} {a : Act Bool} (h : orderlyCheck P s a = true) :
    Orderly P s a := by
  cases a with
  | pseudo env =>
      simp only [orderlyCheck, Bool.and_eq_true, List.all_eq_true, Option.all_eq_true] at h
      obtain ⟨⟨hevents, hkind⟩, hdrain⟩ := h
      refine ⟨fun _ pre e post hev _ _ => ?_, fun _ c addr hcmd hexit => ?_, ?_⟩
      · have he := hevents (.raised e) (by simp [hev])
        simpa using he
      · have hc := hkind c hcmd
        simp [hexit] at hc
      · intro hpc _ t c k hpush
        have hbuild : (s.pc t).building = some c := by rw [hpush]; rfl
        cases t <;> simp [hpc, hbuild] at hdrain
  | start t op => trivial
  | caller t => trivial

/-- A read transfer fails, and the context is shut. -/
theorem eventLoop_shut_after_failure :
    ∃ s : Sys Bool,
      Transition.Run (Sys.step linuxPlatform) (Orderly linuxPlatform) (Sys.init newThread) s ∧
      s.pseudo = .returned ∧ s.accepted.length = 1 ∧ s.Shut linuxPlatform := by
  obtain ⟨s, hrun, hs⟩ := Transition.exists_run (Sys.step linuxPlatform)
    (orderlyCheck linuxPlatform) (Sys.init newThread)
    [.pseudo failingEnv, .pseudo failingEnv, .start true (.asyncReadMem 0x100 0x1000 8),
      .caller true, .caller true, .caller true, .caller true, .caller true, .pseudo failingEnv,
      .pseudo failingEnv, .pseudo failingEnv, .pseudo failingEnv, .pseudo failingEnv,
      .pseudo failingEnv]
    (fun s => s.pseudo == .returned && s.accepted.length == 1)
    (fun _ _ h => orderly_of_check h) (by decide)
  simp only [Bool.and_eq_true, beq_iff_eq] at hs
  exact ⟨s, hrun, hs.1, hs.2, eventLoop_shut newThread hrun hs.1⟩

/-- A driver that reports a machine check before the first block request. -/
def brokenEnv : Env := Env.plain [] [.raised { exs := 0x200, sysnum := 0, args := fun _ => 0 }]

/-- The VE thread calls `exit_group`. -/
def exitingEnv : Env := Env.plain [] [.raised (.monitorCall 231 fun _ => 0)]

/-- A request is accepted before the VE thread fails to come to its first block request: the
    event loop returns with the queue open and the request in it. And an exit command ends the
    loop with the queue open and the state RUNNING, so that a request is accepted afterwards. -/
theorem eventLoop_returns_open :
    (∃ s : Sys Bool, Reachable linuxPlatform s ∧ s.pseudo = .returned ∧
      s.thread.state = .exit ∧ s.comq.request.status = .ready ∧ s.comq.request.queue.length = 1) ∧
    ∃ s : Sys Bool, Reachable linuxPlatform s ∧ s.pseudo = .returned ∧
      s.thread.state = .running ∧ s.comq.request.status = .ready ∧
      s.comq.request.queue.length = 1 := by
  constructor
  · obtain ⟨s, hreach, hs⟩ := Transition.exists_reaches (Sys.step linuxPlatform)
      (Sys.init newThread)
      [.start true (.callVHAsync 1), .caller true, .caller true, .caller true, .caller true,
        .caller true, .pseudo brokenEnv, .pseudo brokenEnv]
      (fun s => s.pseudo == .returned && s.thread.state == .exit &&
        s.comq.request.status == .ready && s.comq.request.queue.length == 1) (by decide)
    simp only [Bool.and_eq_true, beq_iff_eq] at hs
    obtain ⟨⟨⟨hret, hexit⟩, hready⟩, hlen⟩ := hs
    exact ⟨s, ⟨_, hreach⟩, hret, hexit, hready, hlen⟩
  · obtain ⟨s, hreach, hs⟩ := Transition.exists_reaches (Sys.step linuxPlatform)
      (Sys.init newThread)
      [.pseudo failingEnv, .pseudo failingEnv, .start true (.exitProc 0x4000), .caller true,
        .caller true, .caller true, .caller true, .caller true, .pseudo exitingEnv,
        .pseudo exitingEnv, .pseudo exitingEnv, .pseudo exitingEnv,
        .start false (.callVHAsync 1), .caller false, .caller false, .caller false, .caller false,
        .caller false]
      (fun s => s.pseudo == .returned && s.thread.state == .running &&
        s.comq.request.status == .ready && s.comq.request.queue.length == 1) (by decide +kernel)
    simp only [Bool.and_eq_true, beq_iff_eq] at hs
    obtain ⟨⟨⟨hret, hexit⟩, hready⟩, hlen⟩ := hs
    exact ⟨s, ⟨_, hreach⟩, hret, hexit, hready, hlen⟩

end Veo
