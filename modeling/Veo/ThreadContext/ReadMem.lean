-- SUMMARY: Synchronous transfers: readMem and writeMem return zero or abort.
import Veo.Handlers.Failures
import Veo.ThreadContext.Collect

/-!
# Synchronous transfers

`readMem` and `writeMem` submit a transfer to the worker, wait for the result, and assert that
the status is OK. A request that is refused, rejected or drained, and a transfer that fails,
have another status. A request that the event loop leaves in the queue has none, and its caller
waits for ever. A call returns zero if the event loop goes on until the transfer of the call has
been performed with success.
-/

namespace Veo

open Transition

variable {T : Type}

/-- The handlers of the transfers. -/
def Handler.isTransfer : Handler → Bool
  | .asyncReadMem .. | .asyncWriteMem .. => true
  | _ => false

theorem Handler.isNull_of_isTransfer {f : Handler} (h : f.isTransfer = true) : f.isNull = false := by
  cases f with
  | asyncReadMem | asyncWriteMem => rfl
  | _ => cases h

/-- The worker serves the call `o`. Until the command of that call has been run, the VE thread
    comes to its first block request, and the event loop goes on after every command, the one of
    the call included. -/
def Served (P : Platform) (o : T × Nat) (s : Sys T) : Act T → Prop
  | .start _ op => op.internal = true
  | .caller _ => True
  | .pseudo env => s.Unrun o →
      (s.pseudo = .start → ComesTo P .default env.events) ∧
      (s.pseudo = .run → ∀ c f, s.command = some c → c.kind = .handler f →
        f.GoesOn P env s.thread)

theorem Served.internal {P : Platform} {o : T × Nat} {s : Sys T} {a : Act T}
    (h : Served P o s a) : Internal s a := by
  cases a with
  | start t op => exact h
  | caller t => trivial
  | pseudo env => trivial

/-- The transfer `f` of the current call of `t` was performed and succeeded. -/
def Sys.Transferred (s : Sys T) (t : T) (f : Handler) : Prop :=
  ∃ x ∈ s.ran, x.1.owner = (t, s.calls t) ∧ x.1.kind = .handler f ∧ x.2 = ⟨0, .ok⟩

/-- The current call of `t`, which transfers by `f`, reports what happened: the assertion holds,
    it returns zero exactly if the transfer was performed and succeeded, and a negative number
    otherwise. It does return: its wait ends when its command has been completed, it can be
    brought to its end from wherever it waits, and it is over when nothing but new calls is
    possible. -/
structure Reports [DecidableEq T] (P : Platform) (s : Sys T) (t : T) (f : Handler) : Prop where
  holds : s.pc t ≠ .done .aborted
  zero : ∀ r, s.pc t = .done r → (r = .value 0 ↔ s.Transferred t f)
  negative : ∀ r, s.pc t = .done r → ¬ s.Transferred t f →
    ∃ v, r = .value v ∧ (v.setWidth 32).toInt < 0
  finishes : ∀ id c, s.pc t = .waitFor id .readMem → c ∈ s.comq.completion.queue →
    c.owner = (t, s.calls t) → ∃ s', s.step P (.caller t) = some s' ∧ s'.pc t = .done (.value 0)
  returns : ∀ id, (s.pc t).awaits = some id → P.HasBlockRequest →
    ∃ s', Run (Sys.step P) (Served P (t, s.calls t)) s s' ∧ s'.calls t = s.calls t ∧
      s'.pc t = .done (.value 0)
  rest : s.AtRest P → s.pc t = .idle

/-! ## The event loop goes on -/

section Loop
variable {P : Platform} {s s' : Sys T} {a : Act T} {o : T × Nat} {env : Env} {f : Handler}

/-- The event loop has not begun, or goes on. -/
def Sys.Serving (s : Sys T) : Prop :=
  s.pseudo = .start ∨ (s.pseudo.looping = true ∧ s.thread.state = .blocked)

theorem Sys.startEventLoop_comesTo (ht : s.thread.state = .running)
    (h : ComesTo P .default env.events) :
    ∃ th : VeThread, th.state = .blocked ∧
      s.startEventLoop P env = some { s with thread := th, pseudo := .test } := by
  obtain ⟨e, ⟨pre, post, hev, hpre, hterm⟩, herr, hblock⟩ := h
  rw [if_pos rfl] at hblock
  have hhandler := exceptionHandler_first post ht hpre hterm
  rw [← hev] at hhandler
  have hstatus : e.status P .default = statusBlockRequested :=
    VeException.status_eq_block_iff.mpr ⟨herr, hblock⟩
  refine ⟨{ e.after P .default (afterAll P .default pre s.thread) with veSp := e.args argSp },
    VeException.after_state_of_block (f := .default) hblock, ?_⟩
  simp only [Sys.startEventLoop, defaultExceptionHandler, hhandler, hstatus, if_true,
    collectReturnValue_after hblock]

theorem Sys.runCommand_goesOn {c : Command T} (ht : s.thread.state = .blocked)
    (hkind : c.kind = .handler f) (h : f.GoesOn P env s.thread) :
    ∃ o : Outcome, o.thread.state = .blocked ∧ s.runCommand P env c = some { s with
      thread := o.thread, command := some (c.setResult o.result),
      ran := s.ran ++ [(c.toTicket, o.result)], pseudo := .complete } := by
  obtain ⟨o, hexec, hrv, hblocked⟩ := (Handler.goesOn_iff ht).mp h
  refine ⟨o, hblocked, ?_⟩
  simp [Sys.runCommand, hkind, hexec, hrv]

/-- A transfer after which the event loop goes on has the result zero. -/
theorem Handler.exec_transfer {out : Outcome} {t : VeThread} (hf : f.isTransfer = true)
    (hgo : f.GoesOn P env t) (h : f.exec P env t = .ok out) : out.result = ⟨0, .ok⟩ := by
  cases f with
  | asyncReadMem dst src size | asyncWriteMem dst src size =>
      cases h
      simp only [Handler.GoesOn] at hgo
      simp [transferResult, hgo, toWord]
  | _ => cases hf

variable [DecidableEq T]

/-- While the event loop goes on, nobody is refused. -/
theorem Sys.Serving.not_refuses (hs : s.Serving) (hr : Reachable P s) (hf : f.isTransfer = true) :
    ¬ s.Refuses f := by
  rintro (hnull | hexit | hclosed)
  · exact absurd (hnull.symm.trans (Handler.isNull_of_isTransfer hf)) (by decide)
  · rcases hs with hstart | ⟨-, hblocked⟩
    · cases hexit.symm.trans (hr.stateOk.start hstart)
    · cases hexit.symm.trans hblocked
  · rcases hs with hstart | ⟨hloop, -⟩
    · rcases hr.openOk hclosed with hp | hp <;> simp [hstart, Pseudo.closing] at hp
    · rcases hr.openOk hclosed with hp | hp <;> cases h : s.pseudo <;>
        simp_all [Pseudo.closing, Pseudo.looping]

/-- The event loop goes on in a step after which it has to. -/
theorem Sys.Serving.step (hs : s.Serving) (hr : Reachable P s)
    (hkinds : ∀ b ∈ s.accepted, b.kind.internal = true)
    (hstart : s.pseudo = .start → ComesTo P .default env.events)
    (hrun : s.pseudo = .run → ∀ c f, s.command = some c → c.kind = .handler f →
      f.GoesOn P env s.thread)
    (hst : s.step P (.pseudo env) = some s') : s'.Serving := by
  rcases hs with hp | ⟨hloop, hblocked⟩
  · obtain ⟨th, hth, hstep⟩ :=
      Sys.startEventLoop_comesTo (hr.stateOk.start hp) (hstart hp)
    simp only [Sys.step, Sys.pseudoStep, hp, hstep, Option.some.injEq] at hst
    subst hst
    exact .inr ⟨rfl, hth⟩
  · cases hp : s.pseudo with
    | test =>
        simp only [Sys.step, Sys.pseudoStep, hp, hblocked, if_true, Option.some.injEq] at hst
        subst hst
        exact .inr ⟨rfl, hblocked⟩
    | pop =>
        simp only [Sys.step, Sys.pseudoStep, hp] at hst
        obtain ⟨r, -, rfl⟩ := Option.map_eq_some_iff.mp hst
        exact .inr ⟨rfl, hblocked⟩
    | run =>
        simp only [Sys.step, Sys.pseudoStep, hp] at hst
        obtain ⟨c, hcmd, hst⟩ := Option.bind_eq_some_iff.mp hst
        cases hkind : c.kind with
        | close =>
            -- nobody closes the worker
            have hinternal := hkinds _ (hr.mem_accepted (.inr (.inl hcmd)))
            rw [hkind] at hinternal
            cases hinternal
        | handler f =>
            obtain ⟨out, hout, hstep⟩ :=
              Sys.runCommand_goesOn hblocked hkind (hrun hp c f hcmd hkind)
            cases hst.symm.trans hstep
            exact .inr ⟨rfl, hout⟩
    | complete =>
        simp only [Sys.step, Sys.pseudoStep, hp] at hst
        obtain ⟨c, -, rfl⟩ := Option.map_eq_some_iff.mp hst
        exact .inr ⟨rfl, hblocked⟩
    | _ => simp [hp, Pseudo.looping] at hloop

/-- The event loop can go on, unless it waits for a request. -/
theorem Sys.Serving.enabled (hs : s.Serving) (hr : Reachable P s)
    (hstart : ComesTo P .default env.events) (hrun : ∀ (f : Handler) t, f.GoesOn P env t)
    (hpop : s.pseudo = .pop → s.comq.request.queue ≠ []) :
    ∃ s', s.step P (.pseudo env) = some s' := by
  rcases hs with hp | ⟨hloop, hblocked⟩
  · obtain ⟨th, -, hstep⟩ := Sys.startEventLoop_comesTo (hr.stateOk.start hp) hstart
    exact ⟨_, by simp only [Sys.step, Sys.pseudoStep, hp]; exact hstep⟩
  · cases hp : s.pseudo with
    | test => exact ⟨_, by simp only [Sys.step, Sys.pseudoStep, hp]; rfl⟩
    | pop =>
        cases hnext : s.comq.popRequest with
        | none => exact absurd (CommQueue.popRequest_eq_none.mp hnext) (hpop hp)
        | some r => exact ⟨_, by simp only [Sys.step, Sys.pseudoStep, hp, hnext]; rfl⟩
    | run =>
        obtain ⟨c, hcmd⟩ := Option.isSome_iff_exists.mp (hr.holding (.inl hp))
        cases hkind : c.kind with
        | close =>
            exact ⟨_, by simp only [Sys.step, Sys.pseudoStep, hp, hcmd, Option.bind_some,
              Sys.runCommand, hkind]; rfl⟩
        | handler f =>
            obtain ⟨out, -, hstep⟩ := Sys.runCommand_goesOn hblocked hkind (hrun f s.thread)
            exact ⟨_, by simp only [Sys.step, Sys.pseudoStep, hp, hcmd, Option.bind_some]; exact hstep⟩
    | complete =>
        obtain ⟨c, hcmd⟩ := Option.isSome_iff_exists.mp (hr.holding (.inr (by rw [hp]; rfl)))
        exact ⟨_, by simp only [Sys.step, Sys.pseudoStep, hp, Sys.complete, hcmd]; rfl⟩
    | _ => simp [hp, Pseudo.looping] at hloop

end Loop

/-! ## The results of a call that is served -/

section Results
variable [DecidableEq T] {P : Platform} {s s' : Sys T} {a : Act T} {o : T × Nat}

/-- Until the command of the call `o` has been run the event loop goes on, and a transfer of the
    call is not performed in vain. -/
structure Sys.ServedOk (o : T × Nat) (s : Sys T) : Prop where
  kinds : ∀ b ∈ s.accepted, b.kind.internal = true
  serving : s.Unrun o → s.Serving
  ran : ∀ x ∈ s.ran, x.1.owner = o → ∀ f : Handler, f.isTransfer = true → x.1.kind = .handler f →
    x.2 = ⟨0, .ok⟩
  hand : ∀ c f, s.command = some c → c.owner = o → f.isTransfer = true → c.kind = .handler f →
    s.pseudo = .run ∨ s.pseudo = .complete

/-- Nobody pushes a request that closes the worker. -/
theorem Step.kinds_internal (h : Step P s a s') (hin : s.InternalOk)
    (hs : ∀ b ∈ s.accepted, b.kind.internal = true) : ∀ b ∈ s'.accepted, b.kind.internal = true := by
  intro b hb
  rcases h.accepted_cases hb with hold | ⟨t, c, k, -, hpc, rfl⟩
  · exact hs b hold
  · have hinside := hin.inside t
    rw [hpc] at hinside
    exact (Bool.and_eq_true_iff.mp hinside).1

/-- The steps of callers. -/
theorem Sys.ServedOk.of_caller (h : Step P s a s') (hin : s.InternalOk) (hs : s.ServedOk o)
    (ha : ∀ env, a ≠ .pseudo env) : s'.ServedOk o := by
  have hframe := h.pseudoFrame ha
  have hran := h.ran_of_caller ha
  constructor
  case kinds => exact h.kinds_internal hin hs.kinds
  case serving =>
    intro hun
    unfold Sys.Unrun at hun
    rw [hran] at hun
    unfold Sys.Serving
    rw [hframe.pseudo, hframe.thread]
    exact hs.serving hun
  case ran => exact hran ▸ hs.ran
  case hand =>
    rw [hframe.command, hframe.pseudo]
    exact hs.hand

/-- After a step of the pseudo thread the command of the call is being run or completed. -/
theorem Step.hand {env : Env} (h : Step P s (.pseudo env) s') (hr : Reachable P s)
    (hs : s.ServedOk o) (hserving : s.Unrun o → s'.Serving) {c : Command T} {f : Handler}
    (hcmd : s'.command = some c) (howner : c.owner = o) (hf : f.isTransfer = true)
    (hkind : c.kind = .handler f) : s'.pseudo = .run ∨ s'.pseudo = .complete := by
  cases h with
  | pop env d q hpc hpop => exact .inl rfl
  | run env d g out hpc hd hg hexec =>
      cases hcmd
      have hun : s.Unrun d.owner := hr.unrun_of_run hpc hd
      have hnext := hserving (howner ▸ hun)
      by_cases hrv : out.rv = 0
      · exact .inr (by simp [hrv])
      · simp [Sys.Serving, hrv, Pseudo.looping] at hnext
  | runClose env d hpc hd hclose =>
      cases hcmd
      cases hclose.symm.trans hkind
  | abort env hpc =>
      rcases hs.hand c f hcmd howner hf hkind with hp | hp
      · have hnext := hserving (howner ▸ hr.unrun_of_run hp hcmd)
        simp [Sys.Serving, Pseudo.looping] at hnext
      · rcases hpc with hpc | hpc <;> cases hp.symm.trans hpc
  | complete env d next hpc hd => cases hcmd
  | drainPop env d q hpc hpop =>
      cases hcmd
      obtain ⟨hqueue, -, -⟩ := CommQueue.popRequest_eq_some hpop
      have hbefore := hs.serving (howner ▸ hr.unrun_of_queued (c := d) (by simp [hqueue]))
      simp [Sys.Serving, hpc, Pseudo.looping] at hbefore
  | startBlock _ _ _ _ hpc | startFail _ _ hpc | startExit _ hpc | testBlocked _ hpc
  | testReturned _ hpc | failState _ hpc | failClose _ hpc | drainEmpty _ hpc =>
      rcases hs.hand c f hcmd howner hf hkind with hp | hp <;> cases hp.symm.trans hpc

theorem Sys.ServedOk.step (hst : s.step P a = some s') (hr : Reachable P s) (hin : s.InternalOk)
    (hs : s.ServedOk o) (hg : Served P o s a) : s'.ServedOk o := by
  have h := Sys.step_cases hst
  cases a with
  | start t op => exact .of_caller h hin hs (by simp)
  | caller t => exact .of_caller h hin hs (by simp)
  | pseudo env =>
      have hserving (hun : s.Unrun o) : s'.Serving :=
        (hs.serving hun).step hr hs.kinds (hg hun).1 (hg hun).2 hst
      constructor
      case kinds => exact h.kinds_internal hin hs.kinds
      case serving => exact fun hun => hserving fun x hx => hun x (h.ran_subset hx)
      case ran =>
        intro x hx howner f hf hkind
        rcases h.ran_cases hx with
          hold | ⟨env, c, ha, hpc, hcmd, ⟨-, rfl⟩ | ⟨g, out, hg', hexec, rfl⟩⟩
        · exact hs.ran x hold howner f hf hkind
        · rfl
        · cases ha
          cases hg'.symm.trans hkind
          have hun : s.Unrun o := howner ▸ hr.unrun_of_run hpc hcmd
          exact Handler.exec_transfer hf ((hg hun).2 hpc c f hcmd hkind) hexec
      case hand =>
        intro c f hcmd howner hf hkind
        exact h.hand hr hs hserving hcmd howner hf hkind

theorem servedOk_of_run {v : VeThread} (h : Run (Sys.step P) (Served P o) (Sys.init v) s)
    (hleft : s.IdsLeft) : s.ServedOk o := by
  induction h with
  | refl =>
      constructor
      case serving => exact fun _ => .inl rfl
      all_goals simp [Sys.init]
  | tail hrun hg hst ih =>
      have hbefore := Nat.lt_of_le_of_lt (Sys.step_cases hst).issued_le hleft
      have hin := internalOk_of_run (hrun.mono fun _ _ => Served.internal) hbefore
      exact (ih hbefore).step hst ⟨v, hrun.reaches⟩ hin hg

/-- The answer to a call that is served: its transfer was performed and succeeded. -/
theorem Sys.ServedOk.answered (hs : s.ServedOk o) (hr : Reachable P s) {f : Handler}
    {st : CommandStatus} {rv : Option (BitVec 64)} (hf : f.isTransfer = true)
    (h : s.Answered o f st rv) :
    st = .ok ∧ rv = some 0 ∧ ∃ x ∈ s.ran, x.1.owner = o ∧ x.1.kind = .handler f ∧ x.2 = ⟨0, .ok⟩ := by
  cases h with
  | refused hnone hrefuses =>
      have hun : s.Unrun o := fun x hx => hnone x.1 (hr.pipeline.ran_accepted hx)
      exact absurd hrefuses ((hs.serving hun).not_refuses hr hf)
  | dropped b hb howner hkind =>
      -- the queue is not drained while the event loop goes on
      have hdropped : s.dropped = [] := hr.wf.held.dropped ?_
      · rw [hdropped] at hb
        cases hb
      · rcases hs.serving (howner ▸ hr.unrun_of_dropped hb) with hp | ⟨hloop, -⟩
        · rw [hp]
          rfl
        · cases hp : s.pseudo <;> simp_all [Pseudo.looping, Pseudo.draining]
  | ran b r hb howner hkind =>
      have hzero : r = ⟨0, .ok⟩ := hs.ran _ hb howner f hf hkind
      subst hzero
      exact ⟨rfl, rfl, _, hb, howner, hkind, rfl⟩

end Results

/-! ## The call returns -/

section Own
variable [DecidableEq T] {P : Platform} {s s' : Sys T} {t : T} {f : Handler} {id : BitVec 64}

/-- A call that is served has returned zero, if it has returned. -/
theorem Sys.ServedOk.value (hs : s.ServedOk (t, s.calls t)) (hr : Reachable P s)
    (hf : f.isTransfer = true) {r : Ret} (hat : s.AtCall t f .readMem (.done r)) :
    r = .value 0 ∧ s.Transferred t f := by
  obtain ⟨st, rv, hans, rfl⟩ := hat
  obtain ⟨rfl, rfl, hran⟩ := hs.answered hr hf hans
  exact ⟨rfl, hran⟩

omit [DecidableEq T] in
theorem Sys.live_cases {b : Ticket T} (hb : b ∈ s.pipeline.live) :
    ∃ c : Command T, c.toTicket = b ∧
      (c ∈ s.comq.request.queue ∨ s.command = some c ∨ c ∈ s.comq.completion.queue) := by
  simp only [Pipeline.live, Sys.pipeline, List.mem_append, List.mem_map, Option.mem_toList,
    Option.map_eq_some_iff] at hb
  rcases hb with (⟨c, hc, rfl⟩ | ⟨x, ⟨c, hc, rfl⟩, rfl⟩) | ⟨x, ⟨c, hc, rfl⟩, rfl⟩
  · exact ⟨c, rfl, .inl hc⟩
  · exact ⟨c, rfl, .inr (.inl hc)⟩
  · exact ⟨c, rfl, .inr (.inr hc)⟩

/-- In a good environment the event loop can go on with the command of the call. -/
theorem Sys.ServedOk.enabled {o : T × Nat} {env : Env} {c : Command T} (hs : s.ServedOk o)
    (hr : Reachable P s) (hstart : ComesTo P .default env.events)
    (hrun : ∀ (f : Handler) t, f.GoesOn P env t) (howner : c.owner = o)
    (hf : f.isTransfer = true) (hkind : c.kind = .handler f)
    (hc : c ∈ s.comq.request.queue ∨ s.command = some c) :
    ∃ s', s.step P (.pseudo env) = some s' := by
  rcases hc with hqueued | hcmd
  · refine (hs.serving (howner ▸ hr.unrun_of_queued hqueued)).enabled hr hstart hrun fun _ => ?_
    exact List.ne_nil_of_mem hqueued
  · rcases hs.hand c f hcmd howner hf hkind with hp | hp
    · refine (hs.serving (howner ▸ hr.unrun_of_run hp hcmd)).enabled hr hstart hrun fun hpop => ?_
      cases hp.symm.trans hpop
    · exact ⟨_, by simp only [Sys.step, Sys.pseudoStep, hp, Sys.complete, hcmd]; rfl⟩

/-- A served call that waits can go on, or the worker can, and less is left to be done then. -/
theorem Sys.ServedOk.advance (hs : s.ServedOk (t, s.calls t)) (hr : Reachable P s)
    (hin : s.InternalOk) (hf : f.isTransfer = true) (hP : P.HasBlockRequest)
    (hat : s.AtCall t f .readMem (s.pc t)) (hawaits : (s.pc t).awaits = some id) :
    ∃ a s', Served P (t, s.calls t) s a ∧ s.step P a = some s' ∧
      s'.due + (s'.pc t).left < s.due + (s.pc t).left ∧ s'.calls t = s.calls t ∧
      s'.issued = s.issued ∧ ((s'.pc t).awaits = some id ∨ ∃ r, s'.pc t = .done r) := by
  cases hpc : s.pc t with
  | waitErase i w =>
      rw [hpc] at hawaits
      cases hawaits
      have hfree : s.reqMtx = none := by
        by_contra hheld
        obtain ⟨u, hu⟩ := Option.ne_none_iff_exists'.mp hheld
        obtain ⟨j, hj⟩ := hr.holderSearches u hu
        have hinside := hin.inside u
        rw [hj] at hinside
        cases hinside
      by_cases hmem : id ∈ s.remReqid
      · refine ⟨.caller t, { s with remReqid := s.remReqid.erase id }.goto t (.waitFor id w), trivial,
          ?_, ?_, rfl, rfl, .inl ?_⟩
        · simp [Sys.step, Sys.callerStep, hpc, Sys.waitErase, hfree, hmem]
        · simp [Sys.due, Sys.goto, Pc.left]
        · simp [Sys.goto, Pc.awaits]
      · refine ⟨.caller t, s.goto t (.done (w.returns .error none)), trivial, ?_, ?_, rfl, rfl,
          .inr ⟨_, Function.update_self _ _ _⟩⟩
        · simp [Sys.step, Sys.callerStep, hpc, Sys.waitErase, hfree, hmem]
        · simp [Sys.due, Sys.goto, Pc.left]
  | waitFor i w =>
      rw [hpc] at hawaits hat
      cases hawaits
      obtain ⟨-, b, hb, howner, hid, hkind⟩ := hat
      obtain ⟨c, rfl, hqueued | hcmd | hdone⟩ := Sys.live_cases hb
      case inr.inr =>
        obtain ⟨⟨d, q⟩, hfind⟩ := Option.isSome_iff_exists.mp (CommQueue.findCompletion_isSome hdone hid)
        obtain ⟨-, hq, -⟩ := CommQueue.findCompletion_eq_some hfind
        refine ⟨.caller t, s.deliver t id d q (Sys.resultOf w d) (.done (Sys.resultOf w d)), trivial,
          ?_, ?_, rfl, rfl, .inr ⟨_, Function.update_self _ _ _⟩⟩
        · simp [Sys.step, Sys.callerStep, hpc, hfind]
        · simp [Sys.due, Sys.deliver, Sys.goto, Pc.left, hq]
      all_goals
        -- the pseudo thread goes on
        obtain ⟨env, hstart, hrun⟩ := exists_goesOn hP
        obtain ⟨s', hst⟩ := hs.enabled hr hstart hrun howner hf hkind (by simp [*])
        have hstep := Sys.step_cases hst
        have hframe := hstep.callerFrame
        refine ⟨.pseudo env, s', ?_, hst, ?_, congrFun hframe.calls t, hframe.issued, .inl ?_⟩
        · exact fun _ => ⟨fun _ => hstart, fun _ _ _ _ _ => hrun _ _⟩
        · rw [hframe.pc, hpc]
          exact Nat.add_lt_add_right hstep.due_pseudo _
        · rw [hframe.pc, hpc]
          rfl
  | exitWait i =>
      rw [hpc] at hat
      exact hat.elim
  | _ =>
      rw [hpc] at hawaits
      cases hawaits

/-- A served call that waits can be brought to its end. -/
theorem returns_of_served {v : VeThread} {s₀ : Sys T}
    (h₀ : Run (Sys.step P) (Served P (t, s₀.calls t)) (Sys.init v) s₀)
    (h : Run (Sys.step P) (Served P (t, s₀.calls t)) s₀ s) (hleft : s.IdsLeft)
    (hf : f.isTransfer = true) (hpc : s₀.pc t = .test f (.collect .readMem))
    (hsame : s.calls t = s₀.calls t) (hawaits : (s.pc t).awaits = some id)
    (hP : P.HasBlockRequest) :
    ∃ s', Run (Sys.step P) (Served P (t, s₀.calls t)) s s' ∧ s'.calls t = s₀.calls t ∧
      s'.pc t = .done (.value 0) := by
  let I (u : Sys T) : Prop := Run (Sys.step P) (Served P (t, s₀.calls t)) s₀ u ∧ u.IdsLeft ∧
    u.calls t = s₀.calls t ∧ ((u.pc t).awaits = some id ∨ ∃ r, u.pc t = .done r)
  have hstep (u : Sys T) (hI : I u) : u.pc t = .done (.value 0) ∨
      ∃ a u', Served P (t, s₀.calls t) u a ∧ u.step P a = some u' ∧ I u' ∧
        u'.due + (u'.pc t).left < u.due + (u.pc t).left := by
    obtain ⟨hu, hleft, hsame, hpos⟩ := hI
    have hall := h₀.trans hu
    have hr : Reachable P u := ⟨v, hall.reaches⟩
    have hat := (atCall_of_run (h₀.mono fun _ _ => Served.internal)
      (hu.mono fun _ _ => Served.internal) hleft hpc).2 hsame
    have hs := servedOk_of_run hall hleft
    rw [← hsame] at hs
    rcases hpos with hawaits | ⟨r, hdone⟩
    · right
      have hin := internalOk_of_run (hall.mono fun _ _ => Served.internal) hleft
      obtain ⟨a, u', hg, hst, hlt, hcalls, hissued, hpos⟩ := hs.advance hr hin hf hP hat hawaits
      rw [hsame] at hg
      refine ⟨a, u', hg, hst, ⟨.tail hu hg hst, ?_, hcalls.trans hsame, hpos⟩, hlt⟩
      rw [Sys.IdsLeft, hissued]
      exact hleft
    · left
      rw [hdone] at hat
      rw [hdone, (hs.value hr hf hat).1]
  obtain ⟨s', hrun, ⟨-, -, hcalls, -⟩, hdone⟩ := exists_run_to (I := I) _ hstep
    ⟨h, hleft, hsame, .inl hawaits⟩
  exact ⟨s', hrun, hcalls, hdone⟩

/-- When nothing but new calls is possible a served call has returned. -/
theorem Sys.ServedOk.rest {v : VeThread} (hs : s.ServedOk (t, s.calls t))
    (h : Run (Sys.step P) Internal (Sys.init v) s) (hleft : s.IdsLeft)
    (hf : f.isTransfer = true) (hat : s.AtCall t f .readMem (s.pc t)) (hrest : s.AtRest P) :
    s.pc t = .idle := by
  have hr : Reachable P s := ⟨v, h.reaches⟩
  rcases hrest.pc_cases (hrest.reqMtx hr.holderSearches) t with
    hidle | ⟨id, hfind, ⟨w, hpc⟩ | hpc | hpc⟩
  · exact hidle
  · by_cases hfin : s.pseudo.finished = true
    case neg => exact internal_rest h hleft hrest (Bool.eq_false_iff.mpr hfin) t
    case pos =>
      exfalso
      rw [hpc] at hat
      obtain ⟨-, b, hb, howner, hid, hkind⟩ := hat
      obtain ⟨c, rfl, hqueued | hcmd | hdone⟩ := Sys.live_cases hb
      · -- the command has not been run, so the event loop goes on
        rcases hs.serving (howner ▸ hr.unrun_of_queued hqueued) with hp | ⟨hloop, -⟩
        · rw [hp] at hfin
          cases hfin
        · cases hp : s.pseudo <;> simp_all [Pseudo.looping, Pseudo.finished]
      · rcases hs.hand c f hcmd howner hf hkind with hp | hp <;> rw [hp] at hfin <;> cases hfin
      · have hsome := CommQueue.findCompletion_isSome hdone hid
        rw [hfind] at hsome
        cases hsome
  · rw [hpc] at hat
    exact hat.elim
  · rw [hpc] at hat
    exact hat.elim

/-- In every run of the worker in which no ID is issued twice: a call of `readMem` or `writeMem`
    that is served reports what happened, and it returns. -/
theorem readMem_reports (v : VeThread) {s₀ : Sys T} {t : T} {f : Handler}
    (h₀ : Run (Sys.step P) (Served P (t, s₀.calls t)) (Sys.init v) s₀)
    (h : Run (Sys.step P) (Served P (t, s₀.calls t)) s₀ s) (hleft : s.IdsLeft)
    (hf : f.isTransfer = true) (hpc : s₀.pc t = .test f (.collect .readMem))
    (hsame : s.calls t = s₀.calls t) : Reports P s t f := by
  have hall := h₀.trans h
  have hinternal := hall.mono fun _ _ => Served.internal
  have hr : Reachable P s := ⟨v, hall.reaches⟩
  have hat := (atCall_of_run (h₀.mono fun _ _ => Served.internal)
    (h.mono fun _ _ => Served.internal) hleft hpc).2 hsame
  have hserved := servedOk_of_run hall hleft
  rw [← hsame] at hserved
  have hdone {r : Ret} (hret : s.pc t = .done r) : r = .value 0 ∧ s.Transferred t f := by
    rw [hret] at hat
    exact hserved.value hr hf hat
  constructor
  case holds =>
    intro hpc'
    cases (hdone hpc').1
  case zero =>
    intro r hpc'
    exact ⟨fun _ => (hdone hpc').2, fun _ => (hdone hpc').1⟩
  case negative =>
    intro r hpc' hnot
    exact absurd (hdone hpc').2 hnot
  case finishes =>
    intro id c hpc' hc howner
    rw [hpc'] at hat
    obtain ⟨-, hpending⟩ := hat
    have ⟨b, hb, hbowner, hid, _⟩ := hpending
    have hcb : c.toTicket = b := List.inj_on_of_nodup_map hr.wf.owned.nodup
      (hr.mem_accepted (.inr (.inr hc))) (hr.pipeline.live_accepted hb) (howner.trans hbowner.symm)
    have hcid : c.msgid = id := (congrArg Ticket.msgid hcb).trans hid
    obtain ⟨⟨d, q⟩, hfind⟩ := Option.isSome_iff_exists.mp (CommQueue.findCompletion_isSome hc hcid)
    obtain ⟨r, hres, hans⟩ := hpending.answered hr hleft hfind
    obtain ⟨hstatus, hretval, -⟩ := hserved.answered hr hf hans
    refine ⟨_, by simp only [Sys.step, Sys.callerStep, hpc', hfind, Option.map_some]; rfl, ?_⟩
    have hzero : r.retval = 0 := Option.some.inj hretval
    simp [Sys.deliver, Sys.goto, Sys.resultOf, hres, hstatus, hzero, Waiter.returns]
  case returns =>
    intro id hawaits hP
    obtain ⟨s', hrun, hcalls, hret⟩ := returns_of_served h₀ h hleft hf hpc hsame hawaits hP
    rw [hsame]
    exact ⟨s', hrun, hcalls, hret⟩
  case rest => exact hserved.rest hinternal hleft hf hat

end Own

/-! ## Runs -/

/-- A check that implies that the VE thread comes to a block request at once. -/
def blocksAtOnce (P : Platform) : List WaitResult → Bool
  | .raised e :: _ => e.IsRaised ∧ e.IsBlock P ∧ isError P e.exs = false
  | _ => false

theorem comesTo_of_blocksAtOnce {P : Platform} {es : List WaitResult}
    (h : blocksAtOnce P es = true) : ComesTo P .default es := by
  cases es with
  | nil => cases h
  | cons w post =>
      cases w with
      | raised e =>
          obtain ⟨hraised, hblock, hok⟩ := of_decide_eq_true h
          exact ⟨e, ⟨[], post, rfl, nofun, hraised, .inr (.inl hblock)⟩, hok, (if_pos rfl).mpr hblock⟩
      | interrupted | failed errno => cases h

/-- The transfer has the result zero. -/
def Handler.transfers (env : Env) : Handler → Bool
  | .asyncReadMem dst src size => (env.recv env.ve src size (env.vh.read dst size)).1 = 0
  | .asyncWriteMem dst src size => (env.send dst (env.vh.read src size) env.ve).1 = 0
  | _ => false

/-- A check that implies that the call `o` is served: nothing but transfers is run before it. -/
def servedCheck [DecidableEq T] (P : Platform) (o : T × Nat) (s : Sys T) : Act T → Bool
  | .start _ op => op.internal
  | .caller _ => true
  | .pseudo env => s.ran.any (fun x => x.1.owner = o) ||
      ((s.pseudo != .start || blocksAtOnce P env.events) &&
        (s.pseudo != .run || s.command.all fun c =>
          match c.kind with
          | .handler f => f.transfers env
          | .close => true))

theorem served_of_check [DecidableEq T] {P : Platform} {o : T × Nat} {s : Sys T} {a : Act T}
    (h : servedCheck P o s a = true) : Served P o s a := by
  cases a with
  | start t op => exact h
  | caller t => trivial
  | pseudo env =>
      intro hun
      simp only [servedCheck, Bool.or_eq_true, Bool.and_eq_true, List.any_eq_true,
        decide_eq_true_eq] at h
      rcases h with ⟨x, hx, howner⟩ | ⟨hstart, hrun⟩
      · exact absurd howner (hun x hx)
      · refine ⟨fun hpc => comesTo_of_blocksAtOnce (by simpa [hpc] using hstart),
          fun hpc c f hcmd hkind => ?_⟩
        simp only [hpc, bne_self_eq_false, Bool.false_eq_true, hcmd, hkind, Option.all_some,
          false_or] at hrun
        cases f with
        | asyncReadMem dst src size | asyncWriteMem dst src size =>
            simpa [Handler.transfers, Handler.GoesOn] using hrun
        | callAsync | callVHAsync | callOpenContext | exitProc => cases hrun

/-- The driver reads from the VE, and the worker goes on. -/
theorem readMem_reports_success :
    ∃ s₀ s : Sys Bool,
      s₀.pc true = .test (.asyncReadMem 0x100 0x1000 8) (.collect .readMem) ∧
      s.pc true = .done (.value 0) ∧
      Reports linuxPlatform s true (.asyncReadMem 0x100 0x1000 8) := by
  obtain ⟨s₀, h₀, hs₀⟩ := exists_run (Sys.step linuxPlatform)
    (servedCheck linuxPlatform (true, 1)) (Sys.init newThread)
    [.pseudo wrapEnv, .pseudo wrapEnv, .start true (.readMem 0x100 0x1000 8)]
    (fun s₀ => s₀.pc true == .test (.asyncReadMem 0x100 0x1000 8) (.collect .readMem) &&
      s₀.calls true == 1 &&
      (runList (Sys.step linuxPlatform) (servedCheck linuxPlatform (true, 1)) s₀
        [.caller true, .caller true, .caller true, .caller true, .caller true, .caller true,
          .pseudo wrapEnv, .pseudo wrapEnv, .pseudo wrapEnv, .caller true]).any fun s =>
            s.pc true == .done (.value 0) && s.calls true == 1 && s.issued == 1)
    (fun _ _ h => served_of_check h) (by decide +kernel)
  simp only [Bool.and_eq_true, beq_iff_eq, Option.any_eq_true] at hs₀
  obtain ⟨⟨htest, hcalls₀⟩, s, hrun, ⟨hdone, hcalls⟩, hissued⟩ := hs₀
  have hleft : s.IdsLeft := by
    rw [Sys.IdsLeft, hissued]
    decide
  have h := run_of_runList (fun _ _ h => served_of_check h) hrun
  rw [← hcalls₀] at h₀ h
  exact ⟨s₀, s, htest, hdone,
    readMem_reports newThread h₀ h hleft rfl htest (hcalls.trans hcalls₀.symm)⟩

/-- The driver cannot read from the VE: the assertion of `readMem` fails. -/
theorem readMem_aborts :
    ∃ s₀ s : Sys Bool, Run (Sys.step linuxPlatform) Internal (Sys.init newThread) s₀ ∧
      Run (Sys.step linuxPlatform) Internal s₀ s ∧
      s₀.pc true = .test (.asyncReadMem 0x100 0x1000 8) (.collect .readMem) ∧
      s.calls true = s₀.calls true ∧ s.pc true = .done .aborted ∧ s.issued = 1 ∧
      ¬ Reports linuxPlatform s true (.asyncReadMem 0x100 0x1000 8) := by
  obtain ⟨s₀, h₀, hs₀⟩ := exists_run (Sys.step linuxPlatform)
    internalCheck (Sys.init newThread)
    [.pseudo failingEnv, .pseudo failingEnv, .start true (.readMem 0x100 0x1000 8)]
    (fun s₀ => s₀.pc true == .test (.asyncReadMem 0x100 0x1000 8) (.collect .readMem) &&
      (runList (Sys.step linuxPlatform) internalCheck s₀
        [.caller true, .caller true, .caller true, .caller true, .caller true, .caller true,
          .pseudo failingEnv, .pseudo failingEnv, .pseudo failingEnv, .pseudo failingEnv,
          .pseudo failingEnv, .caller true]).any fun s =>
            s.calls true == s₀.calls true && s.pc true == .done .aborted && s.issued == 1)
    (fun _ _ => internal_of_check) (by decide +kernel)
  simp only [Bool.and_eq_true, beq_iff_eq, Option.any_eq_true] at hs₀
  obtain ⟨htest, s, hrun, ⟨hcalls, habort⟩, hissued⟩ := hs₀
  exact ⟨s₀, s, h₀, run_of_runList (fun _ _ => internal_of_check) hrun, htest, hcalls,
    habort, hissued, fun hreports => hreports.holds habort⟩

end Veo
