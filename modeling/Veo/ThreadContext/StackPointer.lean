-- SUMMARY: The recorded stack pointer of an idle context follows the VE thread, as long as no context is opened.
import Veo.ThreadContext.EventLoop

/-!
# The recorded stack pointer

`_doCall` lowers `ve_sp` by the size of the frame, and `_collectReturnValue` sets it to the
stack pointer of the block request. The open-context command does the one and not the other.
-/

namespace Veo

variable {T : Type} {P : Platform} {s s' : Sys T} {a : Act T}

/-- The condition on the steps of the pseudo thread: it runs no open-context command. The exit
    command, which does not come back to the loop, is left out with it. -/
def NoOpenContext (s : Sys T) : Act T → Prop
  | .pseudo _ => s.pseudo = .run → ∀ c, s.command = some c → ∀ addr,
      c.kind ≠ .handler (.callOpenContext addr) ∧ c.kind ≠ .handler (.exitProc addr)
  | _ => True

/-- The stack pointer in the phases of the loop. -/
structure Sys.SpOk (P : Platform) (s : Sys T) : Prop where
  running : s.pseudo = .start → s.thread.state = .running
  follows : s.pseudo.looping = true → SpFollows P s.thread

/-- Outside the loop nothing is said. -/
theorem Sys.SpOk.of_phase (hstart : s.pseudo ≠ .start) (hloop : s.pseudo.looping = false) :
    s.SpOk P where
  running := fun h => absurd h hstart
  follows := fun h => by simp [hloop] at h

theorem Sys.SpOk.of_follows (hstart : s.pseudo ≠ .start) (h : SpFollows P s.thread) :
    s.SpOk P where
  running := fun hp => absurd hp hstart
  follows := fun _ => h

/-- The steps of the pseudo thread. -/
theorem Step.spOk_pseudo [DecidableEq T] {env : Env} (h : Step P s (.pseudo env) s') (hs : s.SpOk P)
    (hg : NoOpenContext s (.pseudo env)) : s'.SpOk P := by
  cases h with
  | startBlock env r v th hpc hexec hstatus hcollect =>
      obtain ⟨e, u, hblock, hthread⟩ := defaultExceptionHandler_block (hs.running hpc) hexec hstatus
      rw [hthread, collectReturnValue_after hblock] at hcollect
      cases hcollect
      exact .of_follows (by simp) (spFollows_collect hblock)
  | testBlocked env hpc hblocked =>
      exact .of_follows (by simp) (hs.follows (by rw [hpc]; rfl))
  | pop env c q hpc hpop => exact .of_follows (by simp) (hs.follows (by rw [hpc]; rfl))
  | run env c f o hpc hcmd hkind hexec =>
      by_cases hrv : o.rv = 0
      · refine .of_follows (by simp [hrv]) ?_
        refine exec_spFollows (fun addr hf => ?_) (fun addr hf => ?_)
          (hs.follows (by rw [hpc]; rfl)) hexec hrv
        · exact (hg hpc c hcmd addr).1 (hf ▸ hkind)
        · exact (hg hpc c hcmd addr).2 (hf ▸ hkind)
      · exact .of_phase (by simp [hrv]) (by simp [hrv, Pseudo.looping])
  | complete env c next hpc hcmd =>
      rcases hpc.phases with ⟨hp, rfl⟩ | ⟨-, rfl⟩ | ⟨-, rfl⟩ | ⟨-, rfl⟩
      · exact .of_follows (by simp) (hs.follows (by rw [hp]; rfl))
      · exact .of_phase (by simp) rfl
      · exact .of_phase (by simp) rfl
      · exact .of_phase (by simp) rfl
  | startFail env r hpc hexec hstatus
  | startExit env hpc
  | abort env hpc
  | testReturned env hpc hblocked
  | runClose env c hpc hcmd hkind
  | failState env hpc
  | failClose env hpc
  | drainPop env c q hpc hpop
  | drainEmpty env hpc hempty => exact .of_phase (by simp) rfl

theorem Step.spOk [DecidableEq T] (h : Step P s a s') (hs : s.SpOk P) (hg : NoOpenContext s a) : s'.SpOk P := by
  have hcaller (hframe : PseudoFrame s s') : s'.SpOk P :=
    ⟨fun hp => hframe.thread ▸ hs.running (hframe.pseudo ▸ hp),
      fun hp => hframe.thread ▸ hs.follows (hframe.pseudo ▸ hp)⟩
  cases a with
  | pseudo env => exact h.spOk_pseudo hs hg
  | start t op => exact hcaller (h.pseudoFrame (by simp))
  | caller t => exact hcaller (h.pseudoFrame (by simp))

/-- In every run without open-context commands, the recorded stack pointer of an idle context
    is the one of the most recent block request of the VE thread. -/
theorem stackPointer_follows [DecidableEq T] (t : VeThread)
    (h : Transition.Run (Sys.step P) NoOpenContext (Sys.init t) s) (hpc : s.pseudo = .pop) :
    SpFollows P s.thread := by
  have hinv : s.SpOk P := by
    refine h.invariant (fun s a s' hs hg hst => (Sys.step_cases hst).spOk hs hg) ⟨fun _ => rfl, ?_⟩
    simp [Sys.init, Pseudo.looping]
  exact hinv.follows (by rw [hpc]; rfl)

/-- A check that implies the condition. -/
def noOpenCheck (s : Sys T) : Act T → Bool
  | .pseudo _ => s.command.all fun c =>
    match c.kind with
    | .handler (.callOpenContext _) | .handler (.exitProc _) => false
    | _ => true
  | _ => true

theorem noOpen_of_check {s : Sys T} {a : Act T} (h : noOpenCheck s a = true) :
    NoOpenContext s a := by
  cases a with
  | pseudo env =>
      intro _ c hcmd addr
      simp only [noOpenCheck, Option.all_eq_true] at h
      have hc := h c hcmd
      constructor <;> intro hkind <;> simp [hkind] at hc
  | start t op => trivial
  | caller t => trivial

/-- The VE thread comes back to its block request with a new stack pointer. -/
def callingEnv : Env := Env.plain [.int .int64 5] [.raised (.blockRequest 7 0x7000)]

/-- A VE call moves the stack pointer, and the record follows. -/
theorem stackPointer_follows_call :
    ∃ s : Sys Bool,
      Transition.Run (Sys.step linuxPlatform) NoOpenContext (Sys.init newThread) s ∧
      s.pseudo = .pop ∧ s.thread.veSp = 0x7000 ∧ SpFollows linuxPlatform s.thread := by
  obtain ⟨s, hrun, hs⟩ := Transition.exists_run (Sys.step linuxPlatform)
    noOpenCheck (Sys.init newThread)
    [.pseudo failingEnv, .pseudo failingEnv, .start true (.callAsync 0x4000), .caller true,
      .caller true, .caller true, .caller true, .caller true, .pseudo callingEnv,
      .pseudo callingEnv, .pseudo callingEnv, .pseudo callingEnv]
    (fun s => s.pseudo == .pop && s.thread.veSp == 0x7000)
    (fun _ _ h => noOpen_of_check h) (by decide +kernel)
  simp only [Bool.and_eq_true, beq_iff_eq] at hs
  exact ⟨s, hrun, hs.1, hs.2, stackPointer_follows newThread hrun hs.1⟩

/-- The VE thread calls `clone` and comes back to its block request where it was. -/
def openingEnv : Env :=
  Env.plain [.int .int32 0xffffffff]
    [.raised (.monitorCall 56 fun _ => 0), .raised (.blockRequest 0 0x8000)]

/-- Opening a context leaves the recorded stack pointer 184 bytes below the stack pointer of
    the VE thread. -/
theorem stackPointer_drifts :
    ∃ s : Sys Bool, Reachable linuxPlatform s ∧ s.pseudo = .pop ∧ s.thread.state = .blocked ∧
      s.thread.veSp = 0x8000 - 184 ∧ ¬ SpFollows linuxPlatform s.thread := by
  obtain ⟨s, hreach, hs⟩ := Transition.exists_reaches (Sys.step linuxPlatform)
    (Sys.init newThread)
    [.pseudo failingEnv, .pseudo failingEnv, .start true (.openContext 0x4000), .caller true,
      .caller true, .caller true, .caller true, .caller true, .pseudo openingEnv,
      .pseudo openingEnv, .pseudo openingEnv, .pseudo openingEnv]
    (fun s => s.pseudo == .pop && s.thread.state == .blocked &&
      s.thread.veSp == 0x8000 - 184 &&
      (lastBlock linuxPlatform s.thread.seen).all (·.args argSp == 0x8000)) (by decide +kernel)
  simp only [Bool.and_eq_true, beq_iff_eq, Option.all_eq_true] at hs
  obtain ⟨⟨⟨hpc, hstate⟩, hsp⟩, hlast⟩ := hs
  refine ⟨s, ⟨_, hreach⟩, hpc, hstate, hsp, ?_⟩
  rintro ⟨e, he, hfollows⟩
  rw [hsp, hlast e he] at hfollows
  exact absurd hfollows (by decide)

end Veo
