-- SUMMARY: The symbol cache is transparent: getSym returns what find_sym answered during the call.
import Veo.ProcHandle.Basic
import Veo.ThreadContext.Submission

/-!
# The symbol cache

The cache holds only addresses that `find_sym` answers for their key. As long as no request ID
is issued twice on the worker, a caller of `getSym` gets the answer to its own request, and what
it returns was answered at some moment during its call.
-/

namespace Veo

variable {T : Type} [DecidableEq T] {P : Platform} {s s' : Sys T} {a : Act T}

/-! ## A caller of `doOnContext` gets the result of its own command -/

/-- What is true of the caller `t` in `doOnContext`, if the values in `A` are the ones that its
    command may be run with. -/
def Sys.Collecting (s : Sys T) (t : T) (A : BitVec 64 → Prop) : Pc T → Prop
  | .test f k => (Kind.handler f).internal = true ∧ k = .collect .doOnContext
  | .issue kind k | .insert _ kind k => kind.internal = true ∧ k = .collect .doOnContext
  | .load c k | .push c k => c.kind.internal = true ∧ k = .collect .doOnContext
  | .waitErase id w | .waitFor id w =>
      w = .doOnContext ∧ (id = requestIdInvalid ∨ s.Accepted t id)
  | .done r => ∀ v, r = .value v → A v
  | _ => False

/-- The command of the current call of `t` was run only with values in `A`. -/
def Sys.RanWith (s : Sys T) (t : T) (A : BitVec 64 → Prop) : Prop :=
  ∀ x ∈ s.ran, x.1.owner = (t, s.calls t) → x.2.status = .ok → A x.2.retval

omit [DecidableEq T] in
theorem Sys.Accepted.mono {t : T} {id : BitVec 64} (h : s.Accepted t id)
    (hacc : s.accepted ⊆ s'.accepted) (hcalls : s'.calls t = s.calls t) : s'.Accepted t id := by
  obtain ⟨b, hb, howner, hid⟩ := h
  exact ⟨b, hacc hb, by rw [howner, hcalls], hid⟩

omit [DecidableEq T] in
/-- A caller keeps its place while others take steps. -/
theorem Sys.Collecting.mono {t : T} {A : BitVec 64 → Prop} {pc : Pc T} (h : s.Collecting t A pc)
    (hacc : s.accepted ⊆ s'.accepted) (hcalls : s'.calls t = s.calls t) :
    s'.Collecting t A pc := by
  cases pc with
  | waitErase id w | waitFor id w => exact ⟨h.1, h.2.imp_right fun hb => hb.mono hacc hcalls⟩
  | _ => exact h

omit [DecidableEq T] in
theorem Sys.Collecting.imp {t : T} {A B : BitVec 64 → Prop} {pc : Pc T} (h : s.Collecting t A pc)
    (hAB : ∀ v, A v → B v) : s.Collecting t B pc := by
  cases pc with
  | done r => exact fun v hv => hAB v (h v hv)
  | _ => exact h

/-- An error is thrown. -/
theorem Waiter.returns_doOnContext {status : CommandStatus} {rv : Option (BitVec 64)}
    {v : BitVec 64} (h : Waiter.doOnContext.returns status rv = .value v) :
    status = .ok ∧ rv.getD 0 = v := by
  simp only [Waiter.returns] at h
  split at h
  · rename_i hok
    cases h
    exact ⟨hok, rfl⟩
  · cases h

/-- The value that a caller takes from the completion queue was computed by its own command. -/
theorem collecting_take {t : T} {id : BitVec 64} {c : Command T} {q : CommQueue T}
    {A : BitVec 64 → Prop} {v : BitVec 64} (hr : Reachable P s) (hleft : s.IdsLeft)
    (hran : s.RanWith t A) (hid : id = requestIdInvalid ∨ s.Accepted t id)
    (hfind : s.comq.findCompletion id = some (c, q))
    (hval : Sys.resultOf .doOnContext c = .value v) : A v := by
  obtain ⟨hcid, -, l₁, l₂, hqueue, -⟩ := CommQueue.findCompletion_eq_some hfind
  have hc : c ∈ s.comq.completion.queue := by simp [hqueue]
  have hacc : c.toTicket ∈ s.accepted := hr.mem_accepted (.inr (.inr hc))
  rcases hid with rfl | ⟨b, hb, howner, hbid⟩
  · exact absurd hcid (hr.submitting.accepted _ hacc)
  · have heq : c.toTicket = b := (hr.idsOk hleft).eq_of_msgid hacc hb (hcid.trans hbid.symm)
    obtain ⟨r, hres, horigin⟩ := hr.completion_origin hc
    simp only [Sys.resultOf, hres] at hval
    obtain ⟨hok, hv⟩ := Waiter.returns_doOnContext hval
    rcases horigin with ⟨hmem, -⟩ | ⟨rfl, -⟩
    · have hA := hran _ hmem (heq ▸ howner) hok
      exact hv ▸ hA
    · cases hok

/-- The steps of the caller. -/
theorem Step.collecting {t : T} {A : BitVec 64 → Prop} (h : Step P s (.caller t) s')
    (hr : Reachable P s) (hleft : s.IdsLeft) (hran : s.RanWith t A)
    (hs : s.Collecting t A (s.pc t)) (hdone : ∀ r, s.pc t ≠ .done r) :
    s'.Collecting t A (s'.pc t) := by
  cases h with
  | move t pc pc' hpc hm =>
      rw [hpc] at hs
      simp only [Function.update_self]
      cases hm with
      | refused f k hrefused =>
          obtain ⟨-, rfl⟩ := hs
          exact ⟨rfl, .inl rfl⟩
      | tested f k hstate => exact hs
      | ready c k hready => exact hs
      | rejected c k hrejected =>
          obtain ⟨hkind, rfl⟩ := hs
          exact ⟨rfl, .inl (Kind.rejectedId_of_internal hkind _)⟩
      | waitUnknown id w hunknown =>
          obtain ⟨rfl, -⟩ := hs
          intro v hv
          cases (Waiter.returns_doOnContext hv).1
      | _ => exact hs.elim
  | issueSkip t kind k hpc hinv =>
      simp only [hpc] at hs ⊢
      exact hs
  | issue t kind k hpc hinv | insert t id kind k hpc hfree =>
      rw [hpc] at hs
      simp only [Function.update_self]
      exact hs
  | push t c k hpc =>
      rw [hpc] at hs
      obtain ⟨-, rfl⟩ := hs
      obtain ⟨hcaller, hcall, -⟩ := hr.wf.owned.built t c (by rw [hpc]; rfl)
      simp only [Function.update_self, After.next]
      exact ⟨rfl, .inr ⟨c.toTicket, by simp, Prod.ext hcaller hcall, rfl⟩⟩
  | waitErase t id w hpc hfree hmem =>
      rw [hpc] at hs
      simp only [Function.update_self]
      exact hs
  | waitTake t id w c q hpc hfind =>
      rw [hpc] at hs
      obtain ⟨rfl, hid⟩ := hs
      simp only [Function.update_self]
      exact fun v hv => collecting_take hr hleft hran hid hfind hv
  | finish t r hpc => exact absurd hpc (hdone r)
  | peekLock t id hpc hfree hmem
  | peekNone t id hpc hfind
  | peekTake t id c q hpc hfind hmem
  | peekLost t id c q hpc hfind hmem
  | exitTake t id c q hpc hfind
  | exitDone t hpc
  | closeTake t id c q hpc hfind
  | delete t hpc =>
      rw [hpc] at hs
      exact hs.elim

/-! ## The worker of a process -/

namespace ProcHandle

variable {func : BitVec 64} {p p' : ProcHandle T} {act : ProcAct T}

/-- The states that a new process reaches. -/
def Reachable (P : Platform) (func : BitVec 64) (p : ProcHandle T) : Prop :=
  ∃ v findSym, Transition.Reaches (ProcHandle.step P func) (.init v findSym) p

/-- A step of `getSym` that leaves the worker alone, or is a step of the worker. -/
theorem next_worker {t : T} (h : p.next func t = some p') :
    p'.worker = p.worker ∨
      ∃ b, Internal p.worker b ∧ p.worker.step P b = some p'.worker := by
  unfold ProcHandle.next at h
  split at h
  case h_2 | h_9 =>
    unfold lockSym at h
    split at h
    · cases h
      exact .inl rfl
    · cases h
  case h_6 =>
    obtain ⟨symaddr, -, rfl⟩ := Option.map_eq_some_iff.mp h
    exact .inl rfl
  case h_7 =>
    obtain ⟨w, hstart, rfl⟩ := Option.map_eq_some_iff.mp h
    exact .inr ⟨.start t (.doOnContext false func), rfl, hstart⟩
  case h_8 =>
    obtain ⟨w, hcaller, rfl⟩ := Option.map_eq_some_iff.mp h
    refine .inr ⟨.caller t, trivial, ?_⟩
    split <;> exact hcaller
  all_goals
    cases h
    try exact .inl rfl

/-- The worker is a context that serves internal calls. -/
theorem step_worker (h : p.step P func act = some p') :
    p'.worker = p.worker ∨ ∃ b, Internal p.worker b ∧ p.worker.step P b = some p'.worker := by
  cases act with
  | getSym t libhdl symname =>
      simp only [ProcHandle.step, getSym] at h
      split at h
      · cases h
        exact .inl rfl
      · cases h
  | next t => exact next_worker h
  | resolve syms =>
      cases h
      exact .inl rfl
  | worker b =>
      right
      cases b with
      | start t op =>
          simp only [ProcHandle.step, workerStep] at h
          split at h
          · rename_i hc
            obtain ⟨w, hstart, rfl⟩ := Option.map_eq_some_iff.mp h
            exact ⟨.start t op, hc.2, hstart⟩
          · cases h
      | caller t =>
          simp only [ProcHandle.step, workerStep] at h
          split at h
          · obtain ⟨w, hcaller, rfl⟩ := Option.map_eq_some_iff.mp h
            exact ⟨.caller t, trivial, hcaller⟩
          · cases h
      | pseudo env =>
          simp only [ProcHandle.step, workerStep] at h
          split at h
          · obtain ⟨w, hpseudo, rfl⟩ := Option.map_eq_some_iff.mp h
            exact ⟨.pseudo env, trivial, hpseudo⟩
          · cases h

theorem worker_run {v : VeThread} {findSym : SymKey → BitVec 64}
    (h : Transition.Reaches (ProcHandle.step P func) (.init v findSym) p) :
    Transition.Run (Sys.step P) Internal (Sys.init v) p.worker := by
  induction h with
  | refl => exact .refl _
  | tail _ _ hst ih =>
      rcases step_worker (P := P) hst with hsame | ⟨b, hb, hstep⟩
      · exact hsame ▸ ih
      · exact .tail ih hb hstep

theorem step_issued_le (h : p.step P func act = some p') : p.worker.issued ≤ p'.worker.issued := by
  rcases step_worker (P := P) h with hsame | ⟨b, -, hstep⟩
  · exact Nat.le_of_eq (by rw [hsame])
  · exact (Sys.step_cases hstep).issued_le

/-- What every step preserves while IDs are left on the worker. -/
theorem Reachable.invariant {I : ProcHandle T → Prop} (hinit : ∀ v findSym, I (.init v findSym))
    (hstep : ∀ p act p', Veo.Reachable P p.worker → p.worker.InternalOk → p.worker.IdsLeft → I p →
      p.step P func act = some p' → I p')
    (h : p.Reachable P func) (hleft : p.worker.IdsLeft) : I p := by
  obtain ⟨v, findSym, hrun⟩ := h
  induction hrun with
  | refl => exact hinit v findSym
  | tail hrun _ hst ih =>
      have hbefore := Nat.lt_of_le_of_lt (step_issued_le hst) hleft
      have hworker := worker_run hrun
      exact hstep _ _ _ ⟨v, hworker.reaches⟩ (internalOk_of_run hworker hbefore) hbefore
        (ih hbefore) hst

/-! ## The invariant of the cache -/

/-- What is resolved stays resolved. -/
def Grows (f g : SymKey → BitVec 64) : Prop := ∀ key, f key ≠ 0 → g key = f key

/-- `find_sym` has answered `symaddr` since the call of `t` began. -/
def Answered (p : ProcHandle T) (t : T) (key : SymKey) (symaddr : BitVec 64) : Prop :=
  ∃ f ∈ p.since t, f key = symaddr

/-- What is true of the caller `t` in `getSym`. -/
def AtSym (p : ProcHandle T) (t : T) : SymPc → Prop
  | .unlockFound key | .read key => (p.symName key).isSome = true
  | .remote key => p.worker.Collecting t (p.Answered t key) (p.worker.pc t) ∧
      p.worker.RanWith t (p.Answered t key)
  | .lockInsert key symaddr | .insert key symaddr | .unlockInsert key symaddr =>
      symaddr ≠ 0 ∧ p.Answered t key symaddr
  | .returned key symaddr => p.Answered t key symaddr
  | _ => True

structure SymOk (p : ProcHandle T) : Prop where
  /-- Every entry is what `find_sym` answers for its key. -/
  entry : ∀ key symaddr, p.symName key = some symaddr → symaddr ≠ 0 ∧ p.findSym key = symaddr
  now : ∀ t, p.sym t ≠ .idle → p.findSym ∈ p.since t
  grown : ∀ t, ∀ f ∈ p.since t, Grows f p.findSym
  caller : ∀ t, p.AtSym t (p.sym t)
  kinds : ∀ b ∈ p.worker.accepted, b.kind ≠ .close

omit [DecidableEq T] in
/-- An address that was answered is still answered. -/
theorem SymOk.answered (hs : p.SymOk) {t : T} {key : SymKey} {symaddr : BitVec 64}
    (hne : symaddr ≠ 0) (h : p.Answered t key symaddr) : p.findSym key = symaddr := by
  obtain ⟨f, hf, rfl⟩ := h
  exact hs.grown t f hf key hne

/-- A step of the caller `t` in `getSym` that touches neither the map nor the worker. -/
theorem SymOk.goSym {t : T} {pc : SymPc} (hs : p.SymOk) (m : Option T) (hpc : p.sym t ≠ .idle)
    (hat : p.AtSym t pc) : SymOk { p.goSym t pc with symMtx := m } where
  entry := hs.entry
  now := by
    intro u hu
    by_cases heq : u = t
    · exact heq ▸ hs.now t hpc
    · exact hs.now u (by simpa [ProcHandle.goSym, Function.update_of_ne heq] using hu)
  grown := hs.grown
  caller := by
    intro u
    by_cases heq : u = t
    · subst heq
      simp only [ProcHandle.goSym, Function.update_self]
      exact hat
    · simp only [ProcHandle.goSym, Function.update_of_ne heq]
      exact hs.caller u
  kinds := hs.kinds

omit [DecidableEq T] in
/-- A step of the worker, if the callers in `doOnContext` keep what is true of them. -/
theorem SymOk.worker {w : Sys T} (hs : p.SymOk)
    (hcaller : ∀ t key, p.sym t = .remote key →
      w.Collecting t (p.Answered t key) (w.pc t) ∧ w.RanWith t (p.Answered t key))
    (hkinds : ∀ b ∈ w.accepted, b.kind ≠ .close) : SymOk { p with worker := w } where
  entry := hs.entry
  now := hs.now
  grown := hs.grown
  caller := by
    intro t
    have hold := hs.caller t
    cases hpc : p.sym t with
    | remote key => exact hcaller t key hpc
    | _ =>
        rw [hpc] at hold
        exact hold
  kinds := hkinds

omit [DecidableEq T] in
/-- The answer that the worker computes for a caller of `getSym`. -/
theorem answers_eq {env : Env} {c : Command T} {key : SymKey} {f : Handler} {o : Outcome}
    (h : p.answers P env = true) (hpc : p.worker.pseudo = .run) (hcmd : p.worker.command = some c)
    (hsym : p.sym c.caller = .remote key) (hcall : c.call = p.worker.calls c.caller)
    (hkind : c.kind = .handler f) (hexec : f.exec P env p.worker.thread = .ok o)
    (hok : o.result.status = .ok) : o.result.retval = p.findSym key := by
  simpa [answers, hpc, hcmd, hsym, hcall, hkind, hexec, hok] using h

omit [DecidableEq T] in
theorem init_symOk (v : VeThread) (findSym : SymKey → BitVec 64) :
    (ProcHandle.init v findSym : ProcHandle T).SymOk := by
  constructor <;> simp [ProcHandle.init, AtSym, Sys.init]

end ProcHandle

/-! ## Steps of the worker -/

/-- Internal calls push no close requests. -/
theorem Step.kinds (h : Step P s a s') (hs : s.InternalOk)
    (hkinds : ∀ b ∈ s.accepted, b.kind ≠ .close) : ∀ b ∈ s'.accepted, b.kind ≠ .close := by
  intro b hb
  rcases h.accepted_cases hb with hold | ⟨t, c, k, -, hpc, rfl⟩
  · exact hkinds b hold
  · have hinside := hs.inside t
    rw [hpc] at hinside
    intro hclose
    simp [Pc.internal, hclose, Kind.internal] at hinside

/-- The values that the command of a call is run with. -/
theorem Step.ranWith {t : T} {A : BitVec 64 → Prop} (h : Step P s a s') (hran : s.RanWith t A)
    (hcalls : s'.calls t = s.calls t) (hkinds : ∀ c, s.command = some c → c.kind ≠ .close)
    (hnew : ∀ env c f o, a = .pseudo env → s.pseudo = .run → s.command = some c →
      c.owner = (t, s.calls t) → c.kind = .handler f → f.exec P env s.thread = .ok o →
      o.result.status = .ok → A o.result.retval) : s'.RanWith t A := by
  intro x hx howner hok
  rw [hcalls] at howner
  rcases h.ran_cases hx with hold | ⟨env, c, ha, hpc, hcmd, ⟨hclose, -⟩ | ⟨f, o, hkind, hexec, rfl⟩⟩
  · exact hran x hold howner hok
  · exact absurd hclose (hkinds c hcmd)
  · exact hnew env c f o ha hpc hcmd howner hkind hexec hok

namespace ProcHandle

variable {func : BitVec 64} {p p' : ProcHandle T} {act : ProcAct T} {w : Sys T}

/-- The commands of the callers of `getSym` are run with what `find_sym` answers. -/
theorem SymOk.ranWith {t : T} {key : SymKey} (hs : p.SymOk) (hr : Veo.Reachable P p.worker)
    (h : Step P p.worker a w) (ht : p.sym t = .remote key)
    (hcalls : w.calls t = p.worker.calls t)
    (hans : ∀ env, a = .pseudo env → p.answers P env = true) :
    w.RanWith t (p.Answered t key) := by
  have hold := hs.caller t
  rw [ht] at hold
  refine h.ranWith hold.2 hcalls (fun c hc => hs.kinds _ (hr.mem_accepted (.inr (.inl hc)))) ?_
  intro env c f o henv hpc hcmd howner hkind hexec hok
  obtain ⟨rfl, hcall⟩ := Prod.mk.inj howner
  refine ⟨p.findSym, hs.now c.caller (by simp [ht]), ?_⟩
  exact (answers_eq (hans env henv) hpc hcmd ht hcall hkind hexec hok).symm

/-- A caller in `doOnContext` keeps what is true of it while others take steps. -/
theorem SymOk.collecting_other {t : T} {key : SymKey} (hs : p.SymOk)
    (hr : Veo.Reachable P p.worker) (h : Step P p.worker a w) (ht : p.sym t = .remote key)
    (hcaller : a ≠ .caller t) (hstart : ∀ op, a ≠ .start t op)
    (hans : ∀ env, a = .pseudo env → p.answers P env = true) :
    w.Collecting t (p.Answered t key) (w.pc t) ∧ w.RanWith t (p.Answered t key) := by
  obtain ⟨hpc, hcalls⟩ := h.other hcaller hstart
  have hold := hs.caller t
  rw [ht] at hold
  exact ⟨hpc ▸ hold.1.mono h.accepted_subset hcalls, hs.ranWith hr h ht hcalls hans⟩

/-- A step of the worker that no caller in `doOnContext` of `getSym` takes. -/
theorem SymOk.worker_other (hs : p.SymOk) (hr : Veo.Reachable P p.worker)
    (hin : p.worker.InternalOk) (h : Step P p.worker a w)
    (hothers : ∀ t key, p.sym t = .remote key → a ≠ .caller t ∧ ∀ op, a ≠ .start t op)
    (hans : ∀ env, a = .pseudo env → p.answers P env = true) : SymOk { p with worker := w } := by
  refine hs.worker (fun t key ht => ?_) (h.kinds hin hs.kinds)
  obtain ⟨hcaller, hstart⟩ := hothers t key ht
  exact hs.collecting_other hr h ht hcaller hstart hans

/-- A new call of the worker has not been run. -/
theorem startCall_ranWith {t : T} {op : Op} {A : BitVec 64 → Prop} (hr : Veo.Reachable P s)
    (h : s.startCall t op = some s') : s'.RanWith t A := by
  have hcases : Step P s (.start t op) s' := startCall_cases h
  intro x hx howner
  cases hcases with
  | start t op hpc =>
      obtain ⟨rfl, hcall⟩ := Prod.mk.inj howner
      simp only [Function.update_self] at hcall
      have hmem : x.1 ∈ s.accepted := by
        rw [show s.accepted = _ from hr.pipeline.order]
        simp only [List.mem_append]
        exact .inl (.inl (.inl (List.mem_map_of_mem hx)))
      have hle := (hr.wf.owned.past _ hmem).1
      omega

/-- `doOnContext` is called. -/
theorem SymOk.call {t : T} {key : SymKey} (hs : p.SymOk) (hr : Veo.Reachable P p.worker)
    (hin : p.worker.InternalOk) (ht : p.sym t = .call key)
    (h : p.worker.startCall t (.doOnContext false func) = some w) :
    SymOk { p.goSym t (.remote key) with worker := w } := by
  have hstep : Step P p.worker (.start t (.doOnContext false func)) w := startCall_cases h
  have hworker : SymOk { p with worker := w } := by
    refine hs.worker_other hr hin hstep (fun u key' hu => ⟨by simp, fun op heq => ?_⟩) (by simp)
    cases heq
    cases ht.symm.trans hu
  refine hworker.goSym p.symMtx (by simp [ht]) ⟨?_, startCall_ranWith hr h⟩
  cases hstep with
  | start t op hpc =>
      simp only [Function.update_self, Op.start]
      exact ⟨rfl, rfl⟩

/-- A step of `doOnContext` before it returns. -/
theorem SymOk.remote {t : T} {key : SymKey} (hs : p.SymOk) (hr : Veo.Reachable P p.worker)
    (hin : p.worker.InternalOk) (hleft : p.worker.IdsLeft) (ht : p.sym t = .remote key)
    (hdone : ∀ r, p.worker.pc t ≠ .done r) (h : p.worker.callerStep t = some w) :
    SymOk { p with worker := w } := by
  have hstep : Step P p.worker (.caller t) w := callerStep_cases h
  refine hs.worker (fun u key' hu => ?_) (hstep.kinds hin hs.kinds)
  by_cases heq : u = t
  · subst heq
    cases hu.symm.trans ht
    have hold := hs.caller u
    rw [ht] at hold
    exact ⟨hstep.collecting hr hleft hold.2 hold.1 hdone,
      hs.ranWith hr hstep ht (congrFun hstep.calls_of_caller u) (by simp)⟩
  · refine hs.collecting_other hr hstep hu (fun hcaller => ?_) (by simp) (by simp)
    cases hcaller
    exact heq rfl

/-- `doOnContext` returns or throws. -/
theorem SymOk.remoteDone {t : T} {key : SymKey} {r : Ret} (hs : p.SymOk)
    (hr : Veo.Reachable P p.worker) (hin : p.worker.InternalOk) (ht : p.sym t = .remote key)
    (hdone : p.worker.pc t = .done r) (h : p.worker.callerStep t = some w) :
    SymOk { p.goSym t (.afterRemote key r) with worker := w } := by
  have hstep : Step P p.worker (.caller t) w := callerStep_cases h
  have hold := hs.caller t
  rw [ht] at hold
  have hvalue : ∀ v, r = .value v → p.Answered t key v := by
    have hcollect := hold.1
    rw [hdone] at hcollect
    exact hcollect
  have hat : p.AtSym t (.afterRemote key r) := by
    cases r with
    | value v =>
        simp only [SymPc.afterRemote]
        split
        · exact hvalue v rfl
        · rename_i hne
          exact ⟨hne, hvalue v rfl⟩
    | _ => trivial
  have hmoved : SymOk { p.goSym t (.afterRemote key r) with symMtx := p.symMtx } :=
    hs.goSym p.symMtx (by simp [ht]) hat
  refine hmoved.worker_other hr hin hstep (fun u key' hu => ⟨fun hcaller => ?_, by simp⟩) (by simp)
  cases hcaller
  -- the caller has left `doOnContext`
  simp only [ProcHandle.goSym, Function.update_self] at hu
  unfold SymPc.afterRemote at hu
  split at hu
  · split at hu <;> cases hu
  · cases hu

/-! ## Steps of `getSym` -/

omit [DecidableEq T] in
/-- Only the callers that have found an entry depend on the map. -/
theorem AtSym.symName {t : T} {pc : SymPc} {m : SymKey → Option (BitVec 64)} (h : p.AtSym t pc)
    (hm : ∀ key, (p.symName key).isSome = true → (m key).isSome = true) :
    AtSym { p with symName := m } t pc := by
  cases pc with
  | unlockFound key | read key => exact hm key h
  | _ => exact h

omit [DecidableEq T] in
/-- More answers keep what is true of a caller. -/
theorem AtSym.since {t : T} {pc : SymPc} {l : T → List (SymKey → BitVec 64)}
    (h : p.AtSym t pc) (findSym : SymKey → BitVec 64) (hl : p.since t ⊆ l t) :
    AtSym { p with findSym := findSym, since := l } t pc := by
  have hanswered (key : SymKey) (v : BitVec 64) (hv : p.Answered t key v) :
      Answered { p with findSym := findSym, since := l } t key v := by
    obtain ⟨f, hf, heq⟩ := hv
    exact ⟨f, hl hf, heq⟩
  cases pc with
  | remote key =>
      exact ⟨h.1.imp (hanswered key), fun x hx howner hok => hanswered key _ (h.2 x hx howner hok)⟩
  | lockInsert key v | insert key v | unlockInsert key v => exact ⟨h.1, hanswered key v h.2⟩
  | returned key v => exact hanswered key v h
  | _ => exact h

/-- An address that was answered is entered into the map. -/
theorem SymOk.insert {t : T} {key : SymKey} {symaddr : BitVec 64} (hs : p.SymOk)
    (ht : p.sym t = .insert key symaddr) :
    SymOk { p.goSym t (.unlockInsert key symaddr) with
      symName := Function.update p.symName key (some symaddr) } := by
  have hat := hs.caller t
  rw [ht] at hat
  have hmoved := hs.goSym p.symMtx (by simp [ht])
    (show p.AtSym t (.unlockInsert key symaddr) from hat)
  have hsome (k : SymKey) (hk : (p.symName k).isSome = true) :
      (Function.update p.symName key (some symaddr) k).isSome = true := by
    rw [Function.update_apply]
    split
    · rfl
    · exact hk
  refine ⟨fun k a hk => ?_, hmoved.now, hmoved.grown, fun u => ?_, hmoved.kinds⟩
  · simp only [Function.update_apply] at hk
    split at hk
    · rename_i heq
      subst heq
      cases hk
      exact ⟨hat.1, hs.answered hat.1 hat.2⟩
    · exact hs.entry k a hk
  · exact (hmoved.caller u).symName hsome

/-- A call of `getSym` begins. -/
theorem SymOk.getSym {t : T} {libhdl : BitVec 64} {symname : List Byte} (hs : p.SymOk)
    (h : p.getSym t libhdl symname = some p') : p'.SymOk := by
  unfold ProcHandle.getSym at h
  split at h
  · rename_i hidle
    cases h
    refine ⟨hs.entry, fun u hu => ?_, fun u f hf => ?_, fun u => ?_, hs.kinds⟩
    · by_cases heq : u = t
      · simp only [heq, Function.update_self, List.mem_singleton]
        rfl
      · simp only [Function.update_of_ne heq]
        exact hs.now u (by simpa [ProcHandle.goSym, Function.update_of_ne heq] using hu)
    · by_cases heq : u = t
      · simp only [heq, Function.update_self, List.mem_singleton] at hf
        exact hf ▸ fun key _ => rfl
      · simp only [Function.update_of_ne heq] at hf
        exact hs.grown u f hf
    · by_cases heq : u = t
      · subst heq
        simp only [ProcHandle.goSym, Function.update_self]
        split <;> trivial
      · simp only [ProcHandle.goSym, Function.update_of_ne heq]
        exact (hs.caller u).since p.findSym (by rw [Function.update_of_ne heq]; exact List.Subset.refl _)
  · cases h

omit [DecidableEq T] in
/-- Symbols get resolved. -/
theorem SymOk.resolve (hs : p.SymOk) (syms : List (SymKey × BitVec 64)) :
    (p.resolve syms).SymOk := by
  have hgrows : Grows p.findSym (p.resolve syms).findSym := fun key hne => if_neg hne
  refine ⟨fun key v hv => ?_, fun t _ => ?_, fun t f hf => ?_, fun t => ?_, hs.kinds⟩
  · obtain ⟨hne, heq⟩ := hs.entry key v hv
    exact ⟨hne, (hgrows key (heq ▸ hne)).trans heq⟩
  · exact List.mem_append_right _ (List.mem_singleton.mpr rfl)
  · rcases List.mem_append.mp hf with hf | hf
    · intro key hne
      have hold := hs.grown t f hf key hne
      exact (hgrows key (hold ▸ hne)).trans hold
    · cases List.mem_singleton.mp hf
      exact fun key _ => rfl
  · exact (hs.caller t).since _ (List.subset_append_left _ _)

/-- The steps of `getSym`. -/
theorem SymOk.next {t : T} (hs : p.SymOk) (hr : Veo.Reachable P p.worker)
    (hin : p.worker.InternalOk) (hleft : p.worker.IdsLeft) (h : p.next func t = some p') :
    p'.SymOk := by
  have hat := hs.caller t
  have hlock {pc : SymPc} (h : p.lockSym t pc = some p') (hpc : p.sym t ≠ .idle)
      (hpc' : p.AtSym t pc) : p'.SymOk := by
    unfold lockSym at h
    split at h
    · cases h
      exact hs.goSym (some t) hpc hpc'
    · cases h
  unfold ProcHandle.next at h
  split at h
  case h_1 => cases h
  case h_2 key ht => exact hlock h (by simp [ht]) trivial
  case h_3 key ht =>
    cases h
    refine hs.goSym p.symMtx (by simp [ht]) ?_
    split
    · assumption
    · trivial
  case h_4 key ht =>
    cases h
    rw [ht] at hat
    exact hs.goSym none (by simp [ht]) hat
  case h_5 key ht =>
    cases h
    exact hs.goSym none (by simp [ht]) trivial
  case h_6 key ht =>
    obtain ⟨symaddr, hsome, rfl⟩ := Option.map_eq_some_iff.mp h
    -- the entry is what `find_sym` answers now
    exact hs.goSym p.symMtx (by simp [ht])
      ⟨p.findSym, hs.now t (by simp [ht]), (hs.entry key symaddr hsome).2⟩
  case h_7 key ht =>
    obtain ⟨w, hstart, rfl⟩ := Option.map_eq_some_iff.mp h
    exact hs.call hr hin ht hstart
  case h_8 key ht =>
    obtain ⟨w, hcaller, rfl⟩ := Option.map_eq_some_iff.mp h
    split
    · rename_i r hdone
      exact hs.remoteDone hr hin ht hdone hcaller
    · rename_i hdone
      exact hs.remote hr hin hleft ht hdone hcaller
  case h_9 key symaddr ht =>
    rw [ht] at hat
    exact hlock h (by simp [ht]) hat
  case h_10 key symaddr ht =>
    cases h
    exact hs.insert ht
  case h_11 key symaddr ht =>
    cases h
    rw [ht] at hat
    exact hs.goSym none (by simp [ht]) hat.2
  case h_12 key symaddr ht =>
    cases h
    exact hs.goSym p.symMtx (by simp [ht]) trivial
  case h_13 ht =>
    cases h
    exact hs.goSym p.symMtx (by simp [ht]) trivial

theorem SymOk.workerStep (hs : p.SymOk) (hr : Veo.Reachable P p.worker)
    (hin : p.worker.InternalOk) (h : p.workerStep P a = some p') : p'.SymOk := by
  cases a with
  | start t op =>
      simp only [ProcHandle.workerStep] at h
      split at h
      · rename_i hc
        obtain ⟨w, hstart, rfl⟩ := Option.map_eq_some_iff.mp h
        refine hs.worker_other hr hin (startCall_cases hstart) (fun u key hu => ⟨by simp, ?_⟩)
          (by simp)
        intro op' heq
        cases heq
        cases hu.symm.trans hc.1
      · cases h
  | caller t =>
      simp only [ProcHandle.workerStep] at h
      split at h
      · rename_i hidle
        obtain ⟨w, hcaller, rfl⟩ := Option.map_eq_some_iff.mp h
        refine hs.worker_other hr hin (callerStep_cases hcaller) (fun u key hu => ⟨?_, by simp⟩)
          (by simp)
        intro heq
        cases heq
        cases hu.symm.trans hidle
      · cases h
  | pseudo env =>
      simp only [ProcHandle.workerStep] at h
      split at h
      · rename_i hans
        obtain ⟨w, hpseudo, rfl⟩ := Option.map_eq_some_iff.mp h
        refine hs.worker_other hr hin (pseudoStep_cases hpseudo) (fun u key _ => by simp) ?_
        intro env' heq
        cases heq
        exact hans
      · cases h

theorem Reachable.symOk (h : p.Reachable P func) (hleft : p.worker.IdsLeft) : p.SymOk := by
  refine h.invariant init_symOk (fun p act p' hr hin hleft hs hst => ?_) hleft
  cases act with
  | getSym t libhdl symname => exact hs.getSym hst
  | next t => exact hs.next hr hin hleft hst
  | worker b => exact hs.workerStep hr hin hst
  | resolve syms =>
      cases hst
      exact hs.resolve syms

/-! ## Transparency -/

/-- An entry changes only when a caller of `getSym` for its key enters an address. -/
theorem next_symName {t : T} {key : SymKey} (h : p.next func t = some p')
    (hne : p'.symName key ≠ p.symName key) :
    ∃ symaddr, p.sym t = .insert key symaddr ∧ p'.symName key = some symaddr := by
  unfold ProcHandle.next at h
  split at h
  case h_2 | h_9 =>
    unfold lockSym at h
    split at h
    · cases h
      exact absurd rfl hne
    · cases h
  case h_6 | h_7 =>
    obtain ⟨x, -, rfl⟩ := Option.map_eq_some_iff.mp h
    exact absurd rfl hne
  case h_8 =>
    obtain ⟨w, -, rfl⟩ := Option.map_eq_some_iff.mp h
    split at hne <;> exact absurd rfl hne
  case h_10 key' symaddr ht =>
    cases h
    by_cases heq : key = key'
    · subst heq
      exact ⟨symaddr, ht, by simp⟩
    · simp only [Function.update_of_ne heq] at hne
      exact absurd rfl hne
  all_goals
    cases h
    try exact absurd rfl hne

theorem step_symName {key : SymKey} (h : p.step P func act = some p')
    (hne : p'.symName key ≠ p.symName key) :
    ∃ t symaddr, act = .next t ∧ p.sym t = .insert key symaddr ∧
      p'.symName key = some symaddr := by
  cases act with
  | next t =>
      obtain ⟨symaddr, ht, hp'⟩ := next_symName h hne
      exact ⟨t, symaddr, rfl, ht, hp'⟩
  | getSym t libhdl symname =>
      simp only [ProcHandle.step, ProcHandle.getSym] at h
      split at h <;> cases h
      exact absurd rfl hne
  | resolve syms =>
      cases h
      exact absurd rfl hne
  | worker b =>
      cases b <;> simp only [ProcHandle.step, ProcHandle.workerStep] at h <;> split at h
      all_goals first
        | cases h
        | obtain ⟨w, -, rfl⟩ := Option.map_eq_some_iff.mp h
          exact absurd rfl hne

/-- The cache of a process is transparent. -/
structure Transparent (P : Platform) (func : BitVec 64) (p : ProcHandle T) : Prop where
  /-- What `getSym` returns is what `find_sym` answered for the key during the call. -/
  returned : ∀ t key symaddr, p.sym t = .returned key symaddr → p.Answered t key symaddr
  /-- An entry is an address that `find_sym` answers for its key, not a failed lookup. -/
  entry : ∀ key symaddr, p.symName key = some symaddr → symaddr ≠ 0 ∧ p.findSym key = symaddr
  /-- An entry changes only when a caller of `getSym` for its key enters an address. -/
  changes : ∀ act p' key, p.step P func act = some p' → p'.symName key ≠ p.symName key →
    ∃ t symaddr, act = .next t ∧ p.sym t = .insert key symaddr ∧ p'.symName key = some symaddr
  /-- The entry that a caller has found is still there when it reads the address. -/
  found : ∀ t key, p.sym t = .read key → (p.next func t).isSome = true

/-- As long as no request ID is issued twice on the worker, the cache is transparent in every
    state that a process reaches. -/
theorem symbols_transparent (h : p.Reachable P func) (hleft : p.worker.IdsLeft) :
    Transparent P func p := by
  have hs := h.symOk hleft
  refine ⟨fun t key symaddr ht => ?_, hs.entry, fun act p' key => step_symName, fun t key ht => ?_⟩
  · have hat := hs.caller t
    rw [ht] at hat
    exact hat
  · have hat := hs.caller t
    rw [ht] at hat
    simp only [ProcHandle.next, ht, Option.isSome_map]
    exact hat

/-- One caller asks the VE for a symbol, and another one finds it in the cache. -/
theorem symbols_transparent_found :
    ∃ p : ProcHandle Bool, p.sym true = .returned (1, [97]) 5 ∧
      p.sym false = .returned (1, [97]) 5 ∧ p.symName (1, [97]) = some 5 ∧
      p.worker.accepted.length = 1 ∧ p.Transparent linuxPlatform wrapFunc := by
  obtain ⟨p, hreach, hp⟩ := Transition.exists_reaches
    (ProcHandle.step linuxPlatform wrapFunc)
    (ProcHandle.init newThread fun key => if key = (1, [97]) then 5 else 0)
    [.worker (.pseudo (replyEnv 0)), .worker (.pseudo (replyEnv 0)), .getSym true 1 [97],
      .next true, .next true, .next true, .next true, .next true, .next true, .next true,
      .next true, .next true, .next true, .worker (.pseudo (replyEnv 5)),
      .worker (.pseudo (replyEnv 5)), .worker (.pseudo (replyEnv 5)), .next true, .next true,
      .next true, .next true, .next true, .getSym false 1 [97], .next false, .next false,
      .next false, .next false]
    (fun p => p.sym true == .returned (1, [97]) 5 && p.sym false == .returned (1, [97]) 5 &&
      p.symName (1, [97]) == some 5 && p.worker.accepted.length == 1 && p.worker.issued == 1)
    (by decide +kernel)
  simp only [Bool.and_eq_true, beq_iff_eq] at hp
  obtain ⟨⟨⟨⟨htrue, hfalse⟩, hentry⟩, hacc⟩, hissued⟩ := hp
  have hleft : p.worker.IdsLeft := by
    rw [Sys.IdsLeft, hissued]
    decide
  exact ⟨p, htrue, hfalse, hentry, hacc, symbols_transparent ⟨_, _, hreach⟩ hleft⟩

end ProcHandle

/-! ## The counter of the worker wraps around

A caller of `getSym` has got an ID and rests before it pushes its request, until another caller
gets the same ID. The first one then takes the result of the other one. -/

section Wrap

variable {n : Nat} {r : Pc Bool} {q : CommQueue Bool} {R : Finset (BitVec 64)}

/-- Both callers have the ID 0, and the caller `false` is about to collect its result. -/
def View.crossing (n : Nat) (r : Pc Bool) (q : CommQueue Bool) (R : Finset (BitVec 64))
    (pseudo : Pseudo) (command : Option (Command Bool)) : View :=
  ⟨.waitErase 0 .doOnContext, n, r, 1, .blocked, q, 1, R, none, pseudo, command⟩

/-- The caller `false` pushes its request. -/
theorem wraps_second : Wraps (.issuing n r 0 {0})
    (.crossing n r (CommQueue.init.pushRequest (wrapCommand false n 0)) {0} .pop none) := by
  have hinsert : Wraps (.issuing n r 0 {0}) (.waiting (.load (wrapCommand false n 0)
      (.collect .doOnContext)) n r 1 (insert 0 {0})) :=
    (wraps_issue (by decide)).trans wraps_insert
  rw [Finset.insert_eq_of_mem (Finset.mem_singleton_self _)] at hinsert
  exact hinsert.trans <| wraps_load.trans wraps_push

/-- The caller `true` pushes its request, and takes the ID out of `rem_reqid`. -/
theorem wraps_first :
    Wraps (.crossing n (.load (wrapCommand true 1 0) (.collect .doOnContext))
        (CommQueue.init.pushRequest (wrapCommand false n 0)) {0} .pop none)
      (.crossing n (.waitFor 0 .doOnContext) ((CommQueue.init.pushRequest
        (wrapCommand false n 0)).pushRequest (wrapCommand true 1 0)) ∅ .pop none) := by
  let q₁ : CommQueue Bool := CommQueue.init.pushRequest (wrapCommand false n 0)
  let q₂ : CommQueue Bool := q₁.pushRequest (wrapCommand true 1 0)
  have hload : Wraps (.crossing n (.load (wrapCommand true 1 0) (.collect .doOnContext)) q₁ {0} .pop
      none) (.crossing n (.push (wrapCommand true 1 0) (.collect .doOnContext)) q₁ {0} .pop none) := by
    refine .of_resting (by simp [View.crossing]) fun s hs => ?_
    simp only [Sys.view, View.crossing, View.mk.injEq] at hs
    simp [View.crossing, Sys.view, Sys.step, Sys.callerStep, Sys.goto, CommQueue.init, hs, q₁]
  have hpush : Wraps
      (.crossing n (.push (wrapCommand true 1 0) (.collect .doOnContext)) q₁ {0} .pop none)
      (.crossing n (.waitErase 0 .doOnContext) q₂ {0} .pop none) := by
    refine .of_resting (by simp [View.crossing]) fun s hs => ?_
    simp only [Sys.view, View.crossing, View.mk.injEq] at hs
    simp [View.crossing, Sys.view, Sys.step, Sys.callerStep, Sys.pushRequest, Sys.goto, After.next,
      wrapCommand, hs, q₂]
  have herase : Wraps (.crossing n (.waitErase 0 .doOnContext) q₂ {0} .pop none)
      (.crossing n (.waitFor 0 .doOnContext) q₂ ∅ .pop none) := by
    refine .of_resting (by simp [View.crossing]) fun s hs => ?_
    simp only [Sys.view, View.crossing, View.mk.injEq] at hs
    simp [View.crossing, Sys.view, Sys.step, Sys.callerStep, Sys.waitErase, Sys.goto, hs]
  exact hload.trans <| hpush.trans herase

/-- The pseudo thread runs the request of the caller `false`. -/
theorem wraps_reply (v : BitVec 64) (c : Command Bool) :
    Wraps (.crossing n r ((CommQueue.init.pushRequest (wrapCommand false n 0)).pushRequest c) R .pop
        none)
      (.crossing n r ((CommQueue.init.pushRequest c).pushCompletion
        ((wrapCommand false n 0).setResult ⟨v, .ok⟩)) R .test none) := by
  let cmd : Command Bool := wrapCommand false n 0
  have hpop : Wraps (.crossing n r ((CommQueue.init.pushRequest cmd).pushRequest c) R .pop none)
      (.crossing n r (CommQueue.init.pushRequest c) R .run (some cmd)) := by
    refine .of_pseudo wrapEnv (by simp [View.crossing]) fun s hs => ?_
    simp only [Sys.view, View.crossing, View.mk.injEq] at hs
    simp [View.crossing, Sys.view, Sys.step, Sys.pseudoStep, CommQueue.popRequest, CommQueue.init,
      CommQueue.pushRequest, BlockingQueue.push, BlockingQueue.popNoWait, hs]
  have hrun : Wraps (.crossing n r (CommQueue.init.pushRequest c) R .run (some cmd))
      (.crossing n r (CommQueue.init.pushRequest c) R .complete
        (some (cmd.setResult ⟨v, .ok⟩))) := by
    refine .of_run (c := cmd) (replyEnv v) rfl rfl fun s hs => ?_
    simp only [Sys.view, View.crossing, View.mk.injEq] at hs
    obtain ⟨o, hexec, hresult, hrv, hstate⟩ := exec_replyEnv v s.thread
    have hkind : cmd.kind = .handler (.callAsync wrapFunc) := rfl
    simp [View.crossing, Sys.view, Sys.step, Sys.pseudoStep, Sys.runCommand, hs, hkind, hexec,
      hresult, hrv, hstate]
  have hcomplete : Wraps (.crossing n r (CommQueue.init.pushRequest c) R .complete
        (some (cmd.setResult ⟨v, .ok⟩)))
      (.crossing n r ((CommQueue.init.pushRequest c).pushCompletion (cmd.setResult ⟨v, .ok⟩)) R .test
        none) := by
    refine .of_pseudo wrapEnv (by simp [View.crossing]) fun s hs => ?_
    simp only [Sys.view, View.crossing, View.mk.injEq] at hs
    simp [View.crossing, Sys.view, Sys.step, Sys.pseudoStep, Sys.complete, hs]
  exact hpop.trans <| hrun.trans hcomplete

/-- The caller `true` takes the result of the caller `false`. -/
theorem wraps_cross (v : BitVec 64) (c : Command Bool) :
    Wraps (.crossing n (.waitFor 0 .doOnContext) ((CommQueue.init.pushRequest c).pushCompletion
        ((wrapCommand false n 0).setResult ⟨v, .ok⟩)) R .test none)
      (.crossing n (.done (.value v)) (CommQueue.init.pushRequest c) R .test none) := by
  refine .of_resting (by simp [View.crossing]) fun s hs => ?_
  simp only [Sys.view, View.crossing, View.mk.injEq] at hs
  simp [View.crossing, Sys.view, Sys.step, Sys.callerStep, Sys.deliver, Sys.goto, Sys.resultOf,
    Waiter.returns, CommQueue.findCompletion, CommQueue.init, CommQueue.pushCompletion,
    CommQueue.pushRequest, BlockingQueue.push, BlockingQueue.tryFind, BlockingQueue.takeFirst,
    wrapCommand, Command.setResult, hs]

/-- The worker of a process takes such steps while the caller `true` is in `doOnContext`. -/
theorem ProcHandle.run_of_wrapping {p : ProcHandle Bool} {key : SymKey} {w : Sys Bool}
    (htrue : p.sym true = .remote key) (hfalse : p.sym false = .idle)
    (h : Transition.Run (Sys.step linuxPlatform) Wrapping p.worker w) :
    Transition.Reaches (ProcHandle.step linuxPlatform wrapFunc) p { p with worker := w } := by
  induction h with
  | refl => exact .refl _
  | tail hrun hg hst ih =>
      rename_i s₁ s₂ a
      cases a with
      | start t op =>
          obtain ⟨rfl, rfl⟩ := hg
          refine .tail (a := .worker (.start false (.doOnContext false wrapFunc))) ih trivial ?_
          have hstart : s₁.startCall false (.doOnContext false wrapFunc) = some s₂ := hst
          simp [ProcHandle.step, ProcHandle.workerStep, hfalse, Op.internal, hstart]
      | caller t =>
          have hcaller : s₁.callerStep t = some s₂ := hst
          cases t with
          | false =>
              refine .tail (a := .worker (.caller false)) ih trivial ?_
              simp [ProcHandle.step, ProcHandle.workerStep, hfalse, hcaller]
          | true =>
              refine .tail (a := .next true) ih trivial ?_
              simp only [ProcHandle.step, ProcHandle.next, htrue, hcaller, Option.map_some]
              split
              · rename_i r hdone
                exact absurd hdone (hg rfl r)
              · rfl
      | pseudo env =>
          have hpseudo : s₁.pseudoStep linuxPlatform env = some s₂ := hst
          have hanswers : ProcHandle.answers linuxPlatform { p with worker := s₁ } env = true := by
            unfold ProcHandle.answers
            split
            · rename_i c hrun hcmd
              have hcaller : c.caller = false := hg hrun c hcmd
              simp [hcaller, hfalse]
            · rfl
          refine .tail (a := .worker (.pseudo env)) ih trivial ?_
          simp [ProcHandle.step, ProcHandle.workerStep, hanswers, hpseudo]

/-- The symbol that the caller `true` looks up. -/
def wrapKey : SymKey := (1, [97])

/-- Nothing is ever resolved on the VE. A caller of `getSym` is issued the ID 0 and rests before it
    pushes its request, while another caller makes 2 ^ 64 - 1 calls, the last one with the ID 0
    again and the result 7. The first caller takes this result, enters it into the cache, and
    returns it. -/
theorem symbols_crossed :
    ∃ p : ProcHandle Bool, p.Reachable linuxPlatform wrapFunc ∧ p.sym true = .returned wrapKey 7 ∧
      p.symName wrapKey = some 7 ∧ (∀ f ∈ p.since true, f wrapKey = 0) ∧
      ¬ p.Transparent linuxPlatform wrapFunc := by
  obtain ⟨p₀, hstart, hp₀⟩ := Transition.exists_reaches
    (ProcHandle.step linuxPlatform wrapFunc) (ProcHandle.init newThread fun _ => 0)
    [.worker (.pseudo wrapEnv), .worker (.pseudo wrapEnv), .getSym true 1 [97], .next true,
      .next true, .next true, .next true, .next true, .next true, .next true]
    (fun p => decide (p.worker.view = .waiting .idle 0
        (.load (wrapCommand true 1 0) (.collect .doOnContext)) 1 {0}) &&
      p.sym true == .remote wrapKey && p.sym false == .idle && p.symMtx == none &&
      (p.since true).all fun f => f wrapKey == 0) (by decide +kernel)
  simp only [Bool.and_eq_true, beq_iff_eq, decide_eq_true_eq, List.all_eq_true] at hp₀
  obtain ⟨⟨⟨⟨hview, htrue⟩, hfalse⟩, hmtx⟩, hzero⟩ := hp₀
  obtain ⟨w, hrun, hw⟩ := (wraps_again.trans <| wraps_second.trans <| wraps_first.trans <|
    (wraps_reply 7 (wrapCommand true 1 0)).trans (wraps_cross 7 (wrapCommand true 1 0)))
    p₀.worker hview
  have hdone : w.pc true = .done (.value 7) := congrArg View.resting hw
  have hreach := hstart.trans (ProcHandle.run_of_wrapping htrue hfalse hrun)
  -- the rest of `getSym`
  let p₁ : ProcHandle Bool := { p₀ with worker := w }
  obtain ⟨p, hlast, hp⟩ := Transition.exists_reaches (ProcHandle.step linuxPlatform wrapFunc) p₁
    [.next true, .next true, .next true, .next true]
    (fun p => p.sym true == .returned wrapKey 7 && p.symName wrapKey == some 7 &&
      (p.since true).all fun f => f wrapKey == 0)
    (by simpa [Transition.runList, ProcHandle.step, ProcHandle.next, p₁, htrue, hdone,
      Sys.callerStep, Sys.goto, SymPc.afterRemote, ProcHandle.goSym, ProcHandle.lockSym,
      ProcHandle.unlockSym, hmtx] using hzero)
  simp only [Bool.and_eq_true, beq_iff_eq, List.all_eq_true] at hp
  obtain ⟨⟨hret, hentry⟩, hsince⟩ := hp
  refine ⟨p, ⟨_, _, hreach.trans hlast⟩, hret, hentry, hsince, fun htrans => ?_⟩
  obtain ⟨f, hf, hseven⟩ := htrans.returned true wrapKey 7 hret
  rw [hsince f hf] at hseven
  cases hseven

end Wrap

end Veo
