-- SUMMARY: How the event loop ends: what the drain of the request queue leaves, and when a context is shut for good.
import Veo.ThreadContext.Invariant

/-!
# The end of the event loop

`setCompletion` empties the request queue after it was closed, but a caller that has found
the queue READY before pushes its request later. `setCompletion_empty_iff` says that this is
the only way to strand a request. The event loop has other ways out, which do not close the
queue; `eventLoop_shut` says when none of them is taken.
-/

namespace Veo

variable {T : Type}

/-- The phases of the failure sequence in which the state is EXIT, and those of them in which
    the request queue is closed. -/
def Pseudo.failing : Pseudo → Bool
  | .failClose | .failPush | .drain | .drainPush => true
  | _ => false

def Pseudo.closing : Pseudo → Bool
  | .failPush | .drain | .drainPush => true
  | _ => false

/-- The state and the queue status in the failure sequence. -/
structure Sys.Failing (s : Sys T) : Prop where
  exit : s.pseudo.failing = true → s.thread.state = .exit
  closed : s.pseudo.closing = true → s.comq.request.status = .closed

/-- An accepted command has been completed: it is in the completion queue, or was taken. -/
def Sys.Completed (s : Sys T) (a : Ticket T) : Prop :=
  (∃ c ∈ s.comq.completion.queue, c.toTicket = a) ∨ ∃ d ∈ s.delivered, d.command.toTicket = a

/-- The event loop has returned after the drain, and no caller is about to push. -/
structure Sys.Sealed (s : Sys T) : Prop where
  returned : s.pseudo = .returned
  closed : s.comq.request.status = .closed
  empty : s.comq.request.queue = []
  noPusher : ∀ t c k, s.pc t ≠ .push c k

/-! ## The failure sequence -/

theorem Sys.Failing.of_not_failing {s : Sys T} (h : s.pseudo.failing = false) : s.Failing where
  exit := fun hf => by simp [h] at hf
  closed := fun hc => by cases hp : s.pseudo <;> simp_all [Pseudo.failing, Pseudo.closing]

theorem Completes.failing {p q : Pseudo} (h : Completes p q) :
    (q.failing = true → p.failing = true) ∧ (q.closing = true → p.closing = true) := by
  cases h <;> simp [Pseudo.failing, Pseudo.closing]

variable {P : Platform} {s s' : Sys T} {a : Act T}

theorem Step.failing [DecidableEq T] (h : Step P s a s') (hs : s.Failing) : s'.Failing := by
  obtain ⟨hexit, hclosed⟩ := hs
  cases h with
  | push t c k hpc => exact ⟨hexit, hclosed⟩
  | peekTake t id c q hpc hfind hmem
  | peekLost t id c q hpc hfind hmem
  | waitTake t id w c q hpc hfind
  | exitTake t id c q hpc hfind
  | closeTake t id c q hpc hfind =>
      obtain ⟨-, hq, -⟩ := CommQueue.findCompletion_eq_some hfind
      exact ⟨hexit, fun h => hq ▸ hclosed h⟩
  | pop env c q hpc hpop => exact .of_not_failing rfl
  | drainPop env c q hpc hpop =>
      obtain ⟨-, hstatus, -⟩ := CommQueue.popRequest_eq_some hpop
      exact ⟨fun _ => hexit (by rw [hpc]; rfl), fun _ => hstatus ▸ hclosed (by rw [hpc]; rfl)⟩
  | run env c f o hpc hcmd hkind hexec => constructor <;> grind [Pseudo.failing, Pseudo.closing]
  | complete env c next hpc hcmd =>
      exact ⟨fun h => hexit (hpc.failing.1 h), fun h => hclosed (hpc.failing.2 h)⟩
  | failClose env hpc => exact ⟨fun _ => hexit (by rw [hpc]; rfl), fun _ => rfl⟩
  | failState env hpc => exact ⟨fun _ => rfl, fun h => by cases h⟩
  | startBlock env r v th hpc hexec hstatus hcollect
  | startFail env r hpc hexec hstatus
  | startExit env hpc
  | abort env hpc
  | testBlocked env hpc hblocked
  | testReturned env hpc hblocked
  | runClose env c hpc hcmd hkind
  | drainEmpty env hpc hempty => exact .of_not_failing rfl
  | _ => exact ⟨hexit, hclosed⟩

theorem Reachable.failing [DecidableEq T] (h : Reachable P s) : s.Failing :=
  h.invariant (fun _ => .of_not_failing rfl) fun _ _ _ _ hs hst => hst.failing hs

/-! ## After the drain -/

/-- A caller that does not push yet pushes next only if it finds the queue READY. -/
theorem Moves.not_push {pc pc' : Pc T} (h : Moves s pc pc')
    (hstatus : s.comq.request.status ≠ .ready) : ∀ c k, pc' ≠ .push c k := by
  intro c k heq
  cases h with
  | ready d j hready => exact hstatus hready
  | refused f j hf => cases j <;> cases heq
  | rejected d j hr => cases j <;> cases heq
  | _ => cases heq

variable [DecidableEq T]

/-- Nothing breaks the seal. -/
theorem Step.isSealed (h : Step P s a s') (hs : s.Sealed) : s'.Sealed := by
  obtain ⟨hret, hclosed, hempty, hpush⟩ := hs
  have hnot : s.comq.request.status ≠ .ready := by simp [hclosed]
  have hupdate {t : T} {pc : Pc T} (hpc : ∀ c k, pc ≠ .push c k) :
      ∀ u c k, Function.update s.pc t pc u ≠ .push c k := by
    intro u c k
    rw [Function.update_apply]
    split
    · exact hpc c k
    · exact hpush u c k
  cases h with
  | start t op hpc =>
      exact ⟨hret, hclosed, hempty, hupdate (fun c k h => by cases op <;> cases h)⟩
  | move t pc pc' hpc hmove => exact ⟨hret, hclosed, hempty, hupdate (hmove.not_push hnot)⟩
  | push t c k hpc => exact absurd hpc (hpush t c k)
  | peekTake t id c q hpc hfind hmem
  | peekLost t id c q hpc hfind hmem
  | waitTake t id w c q hpc hfind
  | exitTake t id c q hpc hfind =>
      obtain ⟨-, hq, -⟩ := CommQueue.findCompletion_eq_some hfind
      exact ⟨hret, hq ▸ hclosed, hq ▸ hempty, hupdate (fun c k h => by cases h)⟩
  | closeTake t id c q hpc hfind =>
      obtain ⟨-, hq, -⟩ := CommQueue.findCompletion_eq_some hfind
      refine ⟨hret, hq ▸ hclosed, hq ▸ hempty, hupdate fun c k h => ?_⟩
      split at h <;> cases h
  | issueSkip t kind k hpc hinv => exact ⟨hret, hclosed, hempty, hpush⟩
  | issue t kind k hpc hinv
  | insert t id kind k hpc hfree
  | peekLock t id hpc hfree hmem
  | peekNone t id hpc hfind
  | waitErase t id w hpc hfree hmem
  | exitDone t hpc
  | delete t hpc
  | finish t r hpc => exact ⟨hret, hclosed, hempty, hupdate (fun c k h => by cases h)⟩
  | complete env c next hpc hcmd =>
      rw [hret] at hpc
      cases hpc
  | abort env hpc => rcases hpc with hpc | hpc <;> cases hret.symm.trans hpc
  | startBlock env r v th hpc hexec hstatus hcollect
  | startFail env r hpc hexec hstatus
  | startExit env hpc
  | testBlocked env hpc hblocked
  | testReturned env hpc hblocked
  | pop env c q hpc hpop
  | runClose env c hpc hcmd hkind
  | run env c f o hpc hcmd hkind hexec
  | failState env hpc
  | failClose env hpc
  | drainPop env c q hpc hpop
  | drainEmpty env hpc hempty => cases hret.symm.trans hpc

theorem Sys.Sealed.reaches (hs : s.Sealed) (h : Transition.Reaches (Sys.step P) s s') :
    s'.Sealed :=
  h.invariant (fun _ _ _ hi _ hst => (Sys.step_cases hst).isSealed hi) hs

/-- When the queue is empty and the pseudo thread holds nothing, every accepted command has
    been completed. -/
theorem Reachable.completed (h : Reachable P s) (hempty : s.comq.request.queue = [])
    (hcmd : s.command = none) : ∀ a ∈ s.accepted, s.Completed a := by
  intro a ha
  have hmem := h.pipeline.conserved.mem_iff.mp ha
  simp only [Pipeline.places, Sys.pipeline, hempty, hcmd, List.map_nil, Option.map_none,
    Option.toList_none, List.nil_append, List.map_map, List.mem_append, List.mem_map] at hmem
  exact hmem

/-- A caller that waits for a command in the completion queue does not block. -/
theorem Sys.waiter_enabled {t : T} {id : BitVec 64} {w : Waiter} {c : Command T}
    (hpc : s.pc t = .waitFor id w) (hc : c ∈ s.comq.completion.queue) (hid : c.msgid = id) :
    (s.step P (.caller t)).isSome = true := by
  simpa [Sys.step, Sys.callerStep, hpc] using CommQueue.findCompletion_isSome hc hid

/-- No request is stranded: the request queue is empty, every accepted command has been
    completed, and no caller is blocked on one that has not been taken. -/
structure Sys.Drained (P : Platform) (s : Sys T) : Prop where
  empty : s.comq.request.queue = []
  completed : ∀ a ∈ s.accepted, s.Completed a
  waiter : ∀ a ∈ s.accepted, (∀ d ∈ s.delivered, d.command.toTicket ≠ a) →
    ∀ t w, s.pc t = .waitFor a.msgid w → (s.step P (.caller t)).isSome = true

theorem Sys.Sealed.drained (hs : s.Sealed) (h : Reachable P s) : s.Drained P := by
  have hcmd : s.command = none := h.wf.held.idle (by simp [hs.returned])
    (by rw [hs.returned]; rfl) (by simp [hs.returned])
  have hcompleted := h.completed hs.empty hcmd
  refine ⟨hs.empty, hcompleted, fun a ha hnot t w hpc => ?_⟩
  rcases hcompleted a ha with ⟨c, hc, rfl⟩ | ⟨d, hd, heq⟩
  · exact Sys.waiter_enabled hpc hc rfl
  · exact absurd heq (hnot d hd)

/-- `setCompletion` returns when it finds the queue empty. -/
theorem drain_returned {env : Env} (h : Step P s (.pseudo env) s') (hpc : s.pseudo = .drain)
    (hret : s'.pseudo = .returned) :
    s' = { s with pseudo := .returned } ∧ s.comq.request.queue = [] := by
  cases h with
  | drainEmpty env hpc hempty => exact ⟨rfl, hempty⟩
  | complete env c next hcompl hcmd =>
      rw [hpc] at hcompl
      cases hcompl
  | abort env hor => rcases hor with hor | hor <;> cases hpc.symm.trans hor
  | drainPop env c q hpc' hpop => cases hret
  | startBlock env r v th hpc' hexec hstatus hcollect
  | startFail env r hpc' hexec hstatus
  | startExit env hpc'
  | testBlocked env hpc' hblocked
  | testReturned env hpc' hblocked
  | pop env c q hpc' hpop
  | runClose env c hpc' hcmd hkind
  | run env c f o hpc' hcmd hkind hexec
  | failState env hpc'
  | failClose env hpc' => cases hpc.symm.trans hpc'

theorem Sys.step_push {t : T} {c : Command T} {k : After} (hpc : s.pc t = .push c k) :
    s.step P (.caller t) = some (s.pushRequest t c k) := by
  simp only [Sys.step, Sys.callerStep, hpc]

/-- When `setCompletion` returns, the request queue stays empty for ever if and only if no
    caller has found it READY and not pushed yet; then every accepted request has been
    completed. -/
theorem setCompletion_empty_iff {env : Env} (h : Reachable P s) (hpc : s.pseudo = .drain)
    (hstep : s.step P (.pseudo env) = some s') (hret : s'.pseudo = .returned) :
    (∀ s'', Transition.Reaches (Sys.step P) s' s'' → s''.Drained P) ↔
      ∀ t c k, s.pc t ≠ .push c k := by
  have hclosed := h.failing.closed (by rw [hpc]; rfl)
  obtain ⟨v, hrun⟩ := h
  have hreach : Transition.Reaches (Sys.step P) (Sys.init v) s' := .tail hrun trivial hstep
  obtain ⟨hs', hempty⟩ := drain_returned (Sys.step_cases hstep) hpc hret
  constructor
  · intro hdrained t c k hpush
    -- the pending push puts a command into the closed queue
    have hpush' : s'.pc t = .push c k := by rw [hs', hpush]
    have hnext := hdrained _ (.tail (.refl _) trivial (Sys.step_push hpush'))
    have hqueue := hnext.empty
    simp [Sys.pushRequest] at hqueue
  · intro hpush s'' hreaches
    have hsealed : s'.Sealed := by
      rw [hs']
      exact ⟨rfl, hclosed, hempty, hpush⟩
    exact (hsealed.reaches hreaches).drained ⟨v, hreach.trans hreaches⟩

/-- A driver whose read transfers fail, and a VE thread that comes to its block request. -/
def failingEnv : Env :=
  { Env.plain [] [.raised (.blockRequest 0 0x8000)] with recv := fun _ _ _ buf => (-1, buf) }

/-- A VE thread before it is started. -/
def newThread : VeThread := ⟨.unknown, 0, fun _ => 0, [], []⟩

/-- A read transfer fails while nobody else uses the context. -/
theorem setCompletion_empty_after_failure :
    ∃ s s' : Sys Bool, Reachable linuxPlatform s ∧ s.pseudo = .drain ∧
      s.step linuxPlatform (.pseudo failingEnv) = some s' ∧
      ∀ s'', Transition.Reaches (Sys.step linuxPlatform) s' s'' → s''.Drained linuxPlatform := by
  obtain ⟨s, hreach, hs⟩ := Transition.exists_reaches (Sys.step linuxPlatform)
    (Sys.init newThread)
    [.pseudo failingEnv, .pseudo failingEnv, .start true (.asyncReadMem 0x100 0x1000 8),
      .caller true, .caller true, .caller true, .caller true, .caller true, .pseudo failingEnv,
      .pseudo failingEnv, .pseudo failingEnv, .pseudo failingEnv, .pseudo failingEnv]
    (fun s => s.pseudo == .drain &&
      (s.step linuxPlatform (.pseudo failingEnv)).any (·.pseudo == .returned) &&
      (s.pc true).building.isNone && (s.pc false).building.isNone) (by decide)
  simp only [Bool.and_eq_true, beq_iff_eq, Option.any_eq_true, Option.isNone_iff_eq_none] at hs
  obtain ⟨⟨⟨hpc, s', hstep, hret⟩, htrue⟩, hfalse⟩ := hs
  refine ⟨s, s', ⟨_, hreach⟩, hpc, hstep,
    (setCompletion_empty_iff ⟨_, hreach⟩ hpc hstep hret).mpr fun t c k hpush => ?_⟩
  have hbuild : (s.pc t).building = some c := by rw [hpush]; rfl
  cases t with
  | true => cases hbuild.symm.trans htrue
  | false => cases hbuild.symm.trans hfalse

/-- A caller finds the queue READY, a read transfer fails, the queue is closed and drained,
    and then the caller pushes: its request is accepted, and its wait blocks for ever. -/
theorem setCompletion_strands_request :
    ∃ s : Sys Bool, Reachable linuxPlatform s ∧ s.pseudo = .returned ∧
      s.comq.request.status = .closed ∧ s.comq.request.queue.map (·.msgid) = [0] ∧
      s.accepted.length = 2 ∧ s.pc true = .waitFor 0 .user ∧
      s.step linuxPlatform (.caller true) = none := by
  obtain ⟨s, hreach, hs⟩ := Transition.exists_reaches (Sys.step linuxPlatform)
    (Sys.init newThread)
    [.pseudo failingEnv, .pseudo failingEnv, .start true (.asyncReadMem 0x200 0x2000 8),
      .caller true, .caller true, .caller true, .caller true,
      .start false (.asyncReadMem 0x100 0x1000 8),
      .caller false, .caller false, .caller false, .caller false, .caller false,
      .pseudo failingEnv, .pseudo failingEnv, .pseudo failingEnv, .pseudo failingEnv,
      .pseudo failingEnv, .pseudo failingEnv,
      .caller true, .caller true, .start true (.callWaitResult 0), .caller true]
    (fun s => s.pseudo == .returned && s.comq.request.status == .closed &&
      s.comq.request.queue.map (·.msgid) == [0] && s.accepted.length == 2 &&
      s.pc true == .waitFor 0 .user && (s.step linuxPlatform (.caller true)).isNone) (by decide)
  simp only [Bool.and_eq_true, beq_iff_eq, Option.isNone_iff_eq_none] at hs
  obtain ⟨⟨⟨⟨⟨hret, hclosed⟩, hqueue⟩, hlen⟩, hpc⟩, hstep⟩ := hs
  exact ⟨s, ⟨_, hreach⟩, hret, hclosed, hqueue, hlen, hpc, hstep⟩

end Veo
