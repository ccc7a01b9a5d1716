-- SUMMARY: The state EXIT is final: nothing is run in it any more, and calls that start in it submit nothing.
import Veo.ThreadContext.EventLoop

/-!
# The state EXIT

`state` is set to EXIT by the event loop, by a failed start and by the close request. No
handler sets it, and the loop does not take a command in it, so it is final. The submitters
test it first; only `exitProc` tests the state of the main thread instead.
-/

namespace Veo

open Transition

variable {T : Type} [DecidableEq T] {P : Platform} {s s' : Sys T} {a : Act T}

/-! ## The phases of EXIT -/

/-- The phases in which the state can be EXIT. -/
def Pseudo.over : Pseudo → Bool
  | .failClose | .failPush | .drain | .drainPush | .closeReply | .returned | .exited => true
  | _ => false

/-- The state in the other phases: a command is popped and run while the VE thread is
    blocked. -/
structure Sys.StateOk (s : Sys T) : Prop where
  start : s.pseudo = .start → s.thread.state = .running
  blocked : s.pseudo = .pop ∨ s.pseudo = .run → s.thread.state = .blocked
  live : s.pseudo.over = false → s.thread.state ≠ .exit

omit [DecidableEq T] in
theorem Sys.StateOk.of_over (h : s.pseudo.over = true) : s.StateOk where
  start := fun hp => by rw [hp] at h; cases h
  blocked := fun hp => by rcases hp with hp | hp <;> rw [hp] at h <;> cases h
  live := fun hp => by rw [hp] at h; cases h

omit [DecidableEq T] in
/-- The phases in which only EXIT is excluded. -/
theorem Sys.StateOk.of_ne (hstart : s.pseudo ≠ .start) (hpop : s.pseudo ≠ .pop)
    (hrun : s.pseudo ≠ .run) (h : s.thread.state ≠ .exit) : s.StateOk where
  start := fun hp => absurd hp hstart
  blocked := fun hp => by
    rcases hp with hp | hp
    · exact absurd hp hpop
    · exact absurd hp hrun
  live := fun _ => h

omit [DecidableEq T] in
theorem Sys.StateOk.of_blocked (hstart : s.pseudo ≠ .start) (h : s.thread.state = .blocked) :
    s.StateOk where
  start := fun hp => absurd hp hstart
  blocked := fun _ => h
  live := fun _ => by simp [h]

theorem Completes.over {p q : Pseudo} (h : Completes p q) (hq : q.over = false) :
    p = .complete ∧ q = .test := by
  cases h <;> first | exact ⟨rfl, rfl⟩ | cases hq

theorem Step.stateOk_pseudo {env : Env} (h : Step P s (.pseudo env) s') (hs : s.StateOk) :
    s'.StateOk := by
  cases h with
  | startBlock env r v th hpc hexec hstatus hcollect =>
      obtain ⟨e, u, hblock, hthread⟩ := defaultExceptionHandler_block (hs.start hpc) hexec hstatus
      rw [hthread, collectReturnValue_after hblock] at hcollect
      cases hcollect
      exact .of_blocked (by simp) (VeException.after_state_of_block (f := .default) hblock)
  | startFail env r hpc hexec hstatus =>
      refine .of_ne (by simp) (by simp) (by simp) ?_
      rcases exceptionHandler_state (hs.start hpc) hexec with hstate | hstate <;> simp [hstate]
  | abort env hpc =>
      refine .of_ne (by simp) (by simp) (by simp) (hs.live ?_)
      rcases hpc with hpc | hpc <;> rw [hpc] <;> rfl
  | testBlocked env hpc hblocked => exact .of_blocked (by simp) hblocked
  | pop env c q hpc hpop => exact .of_blocked (by simp) (hs.blocked (.inl hpc))
  | run env c f o hpc hcmd hkind hexec =>
      have hstate := exec_state (hs.blocked (.inr hpc)) hexec
      by_cases hrv : o.rv = 0
      · refine .of_ne (by simp [hrv]) (by simp [hrv]) (by simp [hrv]) ?_
        rcases hstate with hstate | hstate <;> simp [hstate]
      · refine .of_ne (by simp [hrv]) (by simp [hrv]) (by simp [hrv]) ?_
        rcases hstate with hstate | hstate <;> simp [hstate]
  | complete env c next hpc hcmd =>
      cases hover : next.over with
      | true => exact .of_over hover
      | false =>
          obtain ⟨hp, rfl⟩ := hpc.over hover
          exact .of_ne (by simp) (by simp) (by simp) (hs.live (by rw [hp]; rfl))
  | startExit | testReturned | runClose | failState | failClose | drainPop | drainEmpty =>
      exact .of_over rfl

theorem Step.stateOk (h : Step P s a s') (hs : s.StateOk) : s'.StateOk := by
  cases a with
  | pseudo env => exact h.stateOk_pseudo hs
  | start t op | caller t =>
      have hframe := h.pseudoFrame (by simp)
      constructor
      case start => rw [hframe.pseudo, hframe.thread]; exact hs.start
      case blocked => rw [hframe.pseudo, hframe.thread]; exact hs.blocked
      case live => rw [hframe.pseudo, hframe.thread]; exact hs.live

theorem Reachable.stateOk (h : Reachable P s) : s.StateOk := by
  refine h.invariant (fun t => ?_) fun _ _ _ _ hs hst => hst.stateOk hs
  exact ⟨fun _ => rfl, (fun hp => by rcases hp with hp | hp <;> cases hp), fun _ => by simp [Sys.init]⟩

/-- Nothing leads out of EXIT, and nothing is run in it. -/
theorem Step.exit (h : Step P s a s') (hs : s.StateOk) (hexit : s.thread.state = .exit) :
    s'.thread.state = .exit ∧ s'.ran = s.ran := by
  have hover : s.pseudo.over = true := by
    cases hp : s.pseudo.over with
    | true => rfl
    | false => exact absurd hexit (hs.live hp)
  cases a with
  | start t op | caller t =>
      exact ⟨by rw [(h.pseudoFrame (by simp)).thread, hexit], h.ran_of_caller (by simp)⟩
  | pseudo env =>
      cases h with
      | startBlock env r v th hpc | startFail env r hpc | run env c f o hpc | runClose env c hpc =>
          rw [hpc] at hover
          cases hover
      | startExit | failState => exact ⟨rfl, rfl⟩
      | _ => exact ⟨hexit, rfl⟩

/-! ## Calls that start in EXIT -/

/-- The function object of the command that a call is about to submit. -/
def Pc.submits : Pc T → Option Kind
  | .issue kind _ | .insert _ kind _ => some kind
  | .load c _ | .push c _ => some c.kind
  | _ => none

/-- The command that `exitProc` pushes. -/
def Kind.isExit : Kind → Bool
  | .handler (.exitProc _) => true
  | _ => false

omit [DecidableEq T] in
@[simp] theorem After.next_submits (k : After) (id : BitVec 64) :
    (k.next id : Pc T).submits = none := by
  cases k <;> rfl

omit [DecidableEq T] in
@[simp] theorem Op.start_submits (op : Op) : (op.start : Pc T).submits = none := by
  cases op <;> rfl

omit [DecidableEq T] in
/-- A call that moves on in EXIT goes on with what it was about to submit, or submits the exit
    command. -/
theorem Moves.submits {pc pc' : Pc T} (h : Moves s pc pc') (hexit : s.thread.state = .exit)
    {kind : Kind} (hkind : pc'.submits = some kind) :
    pc.submits = some kind ∨ kind.isExit = true := by
  cases h with
  | tested f k hstate | closeTested hstate => exact absurd hexit hstate
  | ready c k hready => exact .inl hkind
  | exitTested addr =>
      cases hkind
      exact .inr rfl
  | refused f k hstate | rejected c k hready => simp at hkind
  | _ => cases hkind

/-- The calls after the first `n` of each caller submit nothing but the exit command. -/
structure Sys.OnlyExits (n : T → Nat) (s : Sys T) : Prop where
  current : ∀ t kind, n t < s.calls t → (s.pc t).submits = some kind → kind.isExit = true
  accepted : ∀ b ∈ s.accepted, n b.caller < b.call → b.kind.isExit = true

theorem Step.onlyExits {n : T → Nat} (h : Step P s a s') (howned : s.Owned)
    (hexit : s.thread.state = .exit) (hs : s.OnlyExits n) : s'.OnlyExits n := by
  have hcurrent (t : T) (kind : Kind) (hn : n t < s.calls t) (pc : Pc T) (hpc : s.pc t = pc)
      (hkind : pc.submits = some kind) : kind.isExit = true :=
    hs.current t kind hn (hpc ▸ hkind)
  constructor
  case current =>
    intro u kind hn hkind
    have hu := hs.current u kind
    cases h with
    | move t pc pc' hpc hmove =>
        by_cases hut : u = t
        · subst hut
          simp only [Function.update_self] at hkind
          rcases hmove.submits hexit hkind with hold | hex
          · exact hcurrent u kind hn pc hpc hold
          · exact hex
        · simp only [Function.update_of_ne hut] at hkind
          exact hu hn hkind
    | start t op hpc => grind [Function.update_apply, Op.start_submits]
    | _ => grind [Function.update_apply, Pc.submits, After.next_submits]
  case accepted =>
    intro b hb hcall
    rcases h.accepted_cases hb with hold | ⟨t, c, k, -, hpc, rfl⟩
    · exact hs.accepted b hold hcall
    · obtain ⟨hcaller, hnum, -⟩ := howned.built t c (by rw [hpc]; rfl)
      rw [hcaller, hnum] at hcall
      exact hcurrent t c.kind hcall _ hpc rfl

/-- EXIT is final. From a state EXIT on, no command is run any more, and a call that starts
    later gets no command accepted, unless it is `exitProc`, which does not test this state. -/
theorem exit_final (h : Reachable P s) (hexit : s.thread.state = .exit)
    (hrun : Reaches (Sys.step P) s s') :
    s'.thread.state = .exit ∧ s'.ran = s.ran ∧
    ∀ b ∈ s'.accepted, s.calls b.caller < b.call → b.kind.isExit = true := by
  have hinv : s'.StateOk ∧ s'.Wf ∧ s'.thread.state = .exit ∧ s'.ran = s.ran ∧
      s'.OnlyExits s.calls := by
    refine Run.invariant (I := fun u : Sys T => u.StateOk ∧ u.Wf ∧ u.thread.state = .exit ∧
      u.ran = s.ran ∧ u.OnlyExits s.calls) ?_ hrun ⟨h.stateOk, h.wf, hexit, rfl, ?_⟩
    · rintro u b u' ⟨hok, hwf, hu, hran, honly⟩ - hstep
      have hcases := Sys.step_cases hstep
      obtain ⟨hu', hran'⟩ := hcases.exit hok hu
      exact ⟨hcases.stateOk hok, hcases.wf hwf, hu', hran'.trans hran,
        hcases.onlyExits hwf.owned hu honly⟩
    · refine ⟨fun t kind hn => absurd hn (Nat.lt_irrefl _), fun b hb hcall => ?_⟩
      exact absurd (h.wf.owned.past b hb).1 (Nat.not_le_of_lt hcall)
  exact ⟨hinv.2.2.1, hinv.2.2.2.1, hinv.2.2.2.2.accepted⟩

/-- The VE thread fails to start; later `exitProc` still gets its command accepted. -/
theorem exit_final_failed_start :
    ∃ s s' : Sys Bool, Reachable linuxPlatform s ∧ s.thread.state = .exit ∧
      Reaches (Sys.step linuxPlatform) s s' ∧ s'.accepted.length = 1 ∧ s'.thread.state = .exit ∧
      s'.ran = s.ran ∧ ∀ b ∈ s'.accepted, s.calls b.caller < b.call → b.kind.isExit = true := by
  obtain ⟨s, hs, hexit⟩ := exists_reaches (Sys.step linuxPlatform) (Sys.init newThread : Sys Bool)
    [.pseudo brokenEnv, .pseudo brokenEnv]
    (fun s => s.thread.state = .exit ∧ ((runList (Sys.step linuxPlatform) (fun _ _ => true) s
      (.start true (.exitProc 1) :: List.replicate 5 (.caller true))).map
        fun s' => s'.accepted.length) = some 1) (by decide)
  obtain ⟨hstate, hlater⟩ := of_decide_eq_true hexit
  obtain ⟨s', hs', hlen⟩ := Option.map_eq_some_iff.mp hlater
  have hrun : Reaches (Sys.step linuxPlatform) s s' := run_of_runList (fun _ _ _ => trivial) hs'
  exact ⟨s, s', ⟨newThread, hs⟩, hstate, hrun, hlen, exit_final ⟨newThread, hs⟩ hstate hrun⟩

end Veo
