-- SUMMARY: Polling and waiting: when callPeekResult agrees with callWaitResult.
import Veo.ThreadContext.Shutdown
import Veo.Handlers.Throws

/-!
# Polling

`callPeekResult` returns the status UNFINISHED when it finds no completion with the ID, and
then changes nothing. It also returns the status of a completion that it takes, and the
completion of a drained command has the status UNFINISHED too: the caller of a polling loop
goes on, and the request is gone.
-/

namespace Veo

variable {T : Type} [DecidableEq T]

/-- Only the caller `t` takes steps. -/
def OnlyCaller (t : T) (_ : Sys T) (a : Act T) : Prop := a = .caller t

/-- The caller `t` begins `callWaitResult` in place of its `callPeekResult`. -/
def Sys.waitInstead (s : Sys T) (t : T) (id : BitVec 64) : Sys T :=
  { s.goto t (.waitErase id .user) with reqMtx := none }

/-- A step from `s` to `s'` of the caller `t` in `callPeekResult` is as a user of polling loops
    expects. -/
structure PeekOk (P : Platform) (s s' : Sys T) (t : T) (id : BitVec 64) : Prop where
  /-- If the call returns UNFINISHED, then `*retp`, `rem_reqid` and the queues are unchanged, and
      the request can still be collected. -/
  unfinished : ∀ rv, s'.pc t = .done (.result .unfinished rv) →
    rv = none ∧ s'.remReqid = s.remReqid ∧ s'.comq = s.comq ∧ id ∈ s'.remReqid ∧ s'.reqMtx = none
  /-- If it returns another status, then `callWaitResult` would have returned the same in its
      place, with the same effect. -/
  agrees : ∀ status rv, s'.pc t = .done (.result status rv) → status ≠ .unfinished →
    ∃ s'', Transition.Run (Sys.step P) (OnlyCaller t) (s.waitInstead t id) s'' ∧
      s''.pc t = .done (.result status rv) ∧ s''.remReqid = s'.remReqid ∧ s''.comq = s'.comq
  /-- What it returns for a request is what the command with this ID was run with. -/
  own : ∀ status rv, s'.pc t = .done (.result status rv) → status ≠ .unfinished →
    id ∈ s.remReqid → ∃ x ∈ s.ran, x.1.msgid = id ∧ status = x.2.status ∧ rv = some x.2.retval
  /-- The lookup of the ID changes nothing. -/
  lookup : s'.pc t = .peekSearch id → s'.remReqid = s.remReqid ∧ s'.comq = s.comq

variable {P : Platform} {s s' : Sys T} {a : Act T}

/-! ## Statuses -/

theorem Step.ran_status (h : Step P s a s') (hs : ∀ x ∈ s.ran, x.2.status ≠ .unfinished) :
    ∀ x ∈ s'.ran, x.2.status ≠ .unfinished := by
  intro x hx
  rcases h.ran_cases hx with hold | ⟨env, c, -, -, -, ⟨-, rfl⟩ | ⟨f, o, -, hexec, rfl⟩⟩
  · exact hs x hold
  · simp
  · exact exec_status_ne_unfinished hexec

/-- A command that was run has finished. -/
theorem Reachable.ran_status (h : Reachable P s) : ∀ x ∈ s.ran, x.2.status ≠ .unfinished :=
  h.invariant (I := fun s => ∀ x ∈ s.ran, x.2.status ≠ .unfinished) (by simp [Sys.init])
    fun _ _ _ _ hs hst => hst.ran_status hs

/-! ## `callWaitResult` in place of `callPeekResult` -/

/-- For an unknown ID it returns an error. -/
theorem waitInstead_unknown {t : T} {id : BitVec 64} (hmem : id ∉ s.remReqid) :
    Transition.Run (Sys.step P) (OnlyCaller t) (s.waitInstead t id)
      ((s.waitInstead t id).goto t (.done (.result .error none))) := by
  refine .tail (.refl _) rfl ?_
  simp [Sys.step, Sys.callerStep, Sys.waitInstead, Sys.goto, Sys.waitErase, hmem, Waiter.returns]

/-- For the ID of a completion it takes the completion. -/
theorem waitInstead_found {t : T} {id : BitVec 64} {c : Command T} {q : CommQueue T}
    (hmem : id ∈ s.remReqid) (hfind : s.comq.findCompletion id = some (c, q)) :
    ∃ s'', Transition.Run (Sys.step P) (OnlyCaller t) (s.waitInstead t id) s'' ∧
      s''.pc t = .done (Sys.resultOf .user c) ∧ s''.remReqid = s.remReqid.erase id ∧
      s''.comq = q := by
  let s₁ : Sys T := { s.waitInstead t id with remReqid := s.remReqid.erase id }.goto t
    (.waitFor id .user)
  have herase : (s.waitInstead t id).step P (.caller t) = some s₁ := by
    simp [Sys.step, Sys.callerStep, Sys.waitInstead, Sys.goto, Sys.waitErase, hmem, s₁]
  have htake : s₁.step P (.caller t) =
      some (s₁.deliver t id c q (Sys.resultOf .user c) (.done (Sys.resultOf .user c))) := by
    simp [Sys.step, Sys.callerStep, Sys.waitInstead, Sys.goto, hfind, s₁]
  exact ⟨_, .tail (.tail (.refl _) rfl herase) rfl htake, by simp [Sys.deliver, Sys.goto], rfl, rfl⟩

/-! ## Polling agrees with waiting -/

/-- A lookup that does not find the ID, or one that goes on to the search, is as expected. -/
theorem peekFind_ok {t : T} {id : BitVec 64} (hpc : s.pc t = .peekFind id)
    (hstep : s.step P (.caller t) = some s') : PeekOk P s s' t id := by
  have hst := Sys.step_cases hstep
  clear hstep
  cases hst with
  | move t pc pc' hpc' hm =>
      cases hpc.symm.trans hpc'
      cases hm with
      | peekUnknown id hmem =>
          constructor
          case unfinished => simp
          case agrees =>
            intro status rv hret _
            simp only [Function.update_self, Pc.done.injEq] at hret
            exact ⟨_, waitInstead_unknown hmem, by simp [Sys.goto, hret], rfl, rfl⟩
          case own => exact fun _ _ _ _ h => absurd h hmem
          case lookup => simp
  | peekLock t id' hpc' hfree hmem =>
      cases hpc.symm.trans hpc'
      constructor
      case lookup => exact fun _ => ⟨rfl, rfl⟩
      all_goals simp
  | _ => simp_all

/-- A search returns the result of the completion that it finds. -/
theorem peekSearch_found {t : T} {id : BitVec 64} {c : Command T} {q : CommQueue T}
    (hr : Reachable P s) (hpc : s.pc t = .peekSearch id)
    (hfind : s.comq.findCompletion id = some (c, q))
    (hstep : s.step P (.caller t) = some s') :
    id ∈ s.remReqid ∧ s'.pc t = .done (Sys.resultOf .user c) ∧
      s'.remReqid = s.remReqid.erase id ∧ s'.comq = q := by
  -- the mutex has kept the ID in the set since the lookup
  have hmem : id ∈ s.remReqid := (hr.wf.locked t id (by rw [hpc]; rfl)).2
  simp only [Sys.step, Sys.callerStep, hpc, Sys.peekSearch, hfind, hmem, if_true] at hstep
  cases hstep
  exact ⟨hmem, by simp [Sys.deliver, Sys.goto], rfl, rfl⟩

/-- A search that finds a completion is as expected if and only if the command was not
    drained. -/
theorem peekSearch_found_iff {t : T} {id : BitVec 64} {c : Command T} {q : CommQueue T}
    (hr : Reachable P s) (hpc : s.pc t = .peekSearch id)
    (hfind : s.comq.findCompletion id = some (c, q))
    (hstep : s.step P (.caller t) = some s') :
    PeekOk P s s' t id ↔ c.toTicket ∉ s.dropped := by
  obtain ⟨hmem, hpc', hrem, hcomq⟩ := peekSearch_found hr hpc hfind hstep
  obtain ⟨hid, -, l₁, l₂, hqueue, -⟩ := CommQueue.findCompletion_eq_some hfind
  obtain ⟨r, hr', horigin⟩ := hr.completion_origin (c := c) (by simp [hqueue])
  have hresult : Sys.resultOf .user c = .result r.status (some r.retval) := by
    simp [Sys.resultOf, hr', Waiter.returns]
  rw [hresult] at hpc'
  constructor
  · intro hok hdrop
    rcases horigin with ⟨-, hnot⟩ | ⟨rfl, -⟩
    · exact hnot hdrop
    · -- the return value is set although the status is UNFINISHED
      cases (hok.unfinished _ hpc').1
  · intro hnot
    rcases horigin with ⟨hran, -⟩ | ⟨-, hdrop⟩
    · have hstatus : r.status ≠ .unfinished := hr.ran_status _ hran
      constructor
      case unfinished =>
        intro rv hret
        rw [hpc', Pc.done.injEq, Ret.result.injEq] at hret
        exact absurd hret.1 hstatus
      case agrees =>
        intro status rv hret _
        obtain ⟨s'', hrun, hpc'', hrem'', hcomq''⟩ := waitInstead_found (P := P) (t := t) hmem hfind
        refine ⟨s'', hrun, ?_, hrem''.trans hrem.symm, hcomq''.trans hcomq.symm⟩
        rw [hpc'', hresult, ← hpc', hret]
      case own =>
        intro status rv hret _ _
        rw [hpc'] at hret
        cases hret
        exact ⟨_, hran, hid, rfl, rfl⟩
      case lookup =>
        intro hsearch
        cases hpc'.symm.trans hsearch
    · exact absurd hdrop hnot

/-- A search that finds nothing is as expected. -/
theorem peekSearch_none_ok {t : T} {id : BitVec 64} (hr : Reachable P s)
    (hpc : s.pc t = .peekSearch id) (hfind : s.comq.findCompletion id = none)
    (hstep : s.step P (.caller t) = some s') : PeekOk P s s' t id := by
  have hmem : id ∈ s.remReqid := (hr.wf.locked t id (by rw [hpc]; rfl)).2
  simp only [Sys.step, Sys.callerStep, hpc, Sys.peekSearch, hfind] at hstep
  cases hstep
  constructor
  case unfinished =>
    intro rv hret
    simp only [Sys.goto, Function.update_self, Pc.done.injEq, Ret.result.injEq] at hret
    exact ⟨hret.2.symm, rfl, rfl, hmem, rfl⟩
  case agrees | own =>
    intro status rv hret hstatus
    simp only [Sys.goto, Function.update_self, Pc.done.injEq, Ret.result.injEq] at hret
    exact absurd hret.1.symm hstatus
  case lookup => simp [Sys.goto]

/-- In every reachable state and for every ID: a step of `callPeekResult` is as a user of polling
    loops expects if and only if the completion it takes, if any, is not the one of a command that
    was drained. -/
theorem callPeekResult_ok_iff {t : T} {id : BitVec 64} (hr : Reachable P s)
    (hpc : s.pc t = .peekFind id ∨ s.pc t = .peekSearch id)
    (hstep : s.step P (.caller t) = some s') :
    PeekOk P s s' t id ↔ (s.pc t = .peekSearch id → ∀ c q,
      s.comq.findCompletion id = some (c, q) → c.toTicket ∉ s.dropped) := by
  rcases hpc with hpc | hpc
  · refine iff_of_true (peekFind_ok hpc hstep) fun hsearch => ?_
    cases hpc.symm.trans hsearch
  · cases hfind : s.comq.findCompletion id with
    | none => exact iff_of_true (peekSearch_none_ok hr hpc hfind hstep) (by simp)
    | some found =>
        obtain ⟨c, q⟩ := found
        rw [peekSearch_found_iff hr hpc hfind hstep]
        constructor
        · intro hnot _ d q' hd
          cases hd
          exact hnot
        · intro hall
          exact hall hpc c q rfl

/-- A VH call is polled after it has finished. -/
theorem callPeekResult_ok_vh_call :
    ∃ s s' : Sys Bool, Reachable linuxPlatform s ∧ s.pc true = .peekSearch 0 ∧
      s.step linuxPlatform (.caller true) = some s' ∧
      s'.pc true = .done (.result .ok (some 0)) ∧ PeekOk linuxPlatform s s' true 0 := by
  obtain ⟨s, hreach, hs⟩ := Transition.exists_reaches (Sys.step linuxPlatform)
    (Sys.init newThread)
    [.pseudo failingEnv, .pseudo failingEnv, .start true (.callVHAsync 1), .caller true,
      .caller true, .caller true, .caller true, .caller true, .caller true, .pseudo failingEnv,
      .pseudo failingEnv, .pseudo failingEnv, .start true (.callPeekResult 0), .caller true]
    (fun s => s.pc true == .peekSearch 0 && s.dropped == [] &&
      (s.step linuxPlatform (.caller true)).any fun s' =>
        s'.pc true == .done (.result .ok (some 0))) (by decide)
  simp only [Bool.and_eq_true, beq_iff_eq, Option.any_eq_true] at hs
  obtain ⟨⟨hpc, hdrop⟩, s', hstep, hret⟩ := hs
  refine ⟨s, s', ⟨_, hreach⟩, hpc, hstep, hret, ?_⟩
  exact (callPeekResult_ok_iff ⟨_, hreach⟩ (.inr hpc) hstep).mpr fun _ c q _ => by simp [hdrop]

/-- A read transfer fails, and the VH call behind it is drained. Its caller polls: the status is
    UNFINISHED, but the return value is set, and the ID and the completion are gone. -/
theorem callPeekResult_loses_request :
    ∃ s s' : Sys Bool, Reachable linuxPlatform s ∧ s.pc true = .peekSearch 1 ∧
      s.step linuxPlatform (.caller true) = some s' ∧
      s'.pc true = .done (.result .unfinished (some 0)) ∧ 1 ∈ s.remReqid ∧ 1 ∉ s'.remReqid ∧
      s'.comq.findCompletion 1 = none ∧ ¬ PeekOk linuxPlatform s s' true 1 := by
  obtain ⟨s, hreach, hs⟩ := Transition.exists_reaches (Sys.step linuxPlatform)
    (Sys.init newThread)
    [.pseudo failingEnv, .pseudo failingEnv, .start false (.asyncReadMem 0x100 0x1000 8),
      .caller false, .caller false, .caller false, .caller false, .caller false,
      .start true (.callVHAsync 1), .caller true, .caller true, .caller true, .caller true,
      .caller true, .caller true, .pseudo failingEnv, .pseudo failingEnv, .pseudo failingEnv,
      .pseudo failingEnv, .pseudo failingEnv, .pseudo failingEnv, .pseudo failingEnv,
      .start true (.callPeekResult 1), .caller true]
    (fun s : Sys Bool => s.pc true == .peekSearch 1 && decide (1 ∈ s.remReqid) &&
      (s.step linuxPlatform (.caller true)).any fun s' : Sys Bool =>
        s'.pc true == .done (.result .unfinished (some 0)) && decide (1 ∉ s'.remReqid) &&
          (s'.comq.findCompletion 1).isNone) (by decide)
  simp only [Bool.and_eq_true, beq_iff_eq, Option.any_eq_true, decide_eq_true_eq,
    Option.isNone_iff_eq_none] at hs
  obtain ⟨⟨hpc, hmem⟩, s', hstep, ⟨hret, hgone⟩, hnone⟩ := hs
  refine ⟨s, s', ⟨_, hreach⟩, hpc, hstep, hret, hmem, hgone, hnone, fun hok => ?_⟩
  cases (hok.unfinished _ hret).1

end Veo
