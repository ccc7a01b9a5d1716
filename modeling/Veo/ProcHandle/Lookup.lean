-- SUMMARY: Symbol lookups come to an end: no caller of getSym is left waiting for sym_mtx or for the worker.
import Veo.ProcHandle.Symbols
import Veo.ThreadContext.Collect

/-!
# Lookups at rest

A caller of `getSym` blocks on `sym_mtx` and in `doOnContext`. The holder of `sym_mtx` never
blocks, because the mutex is released before `doOnContext` is called. The completion that a caller
of the worker waits for is not taken by anybody else, because all the calls on the worker are
internal ones.
-/

namespace Veo

open Transition

variable {T : Type} [DecidableEq T] {P : Platform} {s s' : Sys T} {a : Act T}

/-! ## The callers of `getSym` -/

/-- The places between the lock and the unlock of `sym_mtx`. -/
def SymPc.holds : SymPc → Bool
  | .find _ | .unlockFound _ | .unlockMissing _ | .insert .. | .unlockInsert .. => true
  | _ => false

namespace ProcHandle

variable {func : BitVec 64} {p p' : ProcHandle T} {act : ProcAct T}

/-- A caller of `getSym` uses the worker in `doOnContext` only, and `sym_mtx` is held between its
    lock and its unlock. -/
structure LookupOk (p : ProcHandle T) : Prop where
  away : ∀ t, p.sym t ≠ .idle → (∀ key, p.sym t ≠ .remote key) → p.worker.pc t = .idle
  mutex : ∀ t, p.symMtx = some t → (p.sym t).holds = true

/-- A step of the caller `t`, in `getSym` or on the worker. -/
theorem LookupOk.of_caller (t : T) (hs : p.LookupOk)
    (hworker : ∀ u, u ≠ t → p'.worker.pc u = p.worker.pc u)
    (hsym : ∀ u, u ≠ t → p'.sym u = p.sym u)
    (haway : p'.sym t ≠ .idle → (∀ key, p'.sym t ≠ .remote key) → p'.worker.pc t = .idle)
    (hmutex : p'.symMtx = none ∨ (p'.symMtx = some t ∧ (p'.sym t).holds = true) ∨
      p'.symMtx = p.symMtx ∧ ((p.sym t).holds = true → (p'.sym t).holds = true)) :
    p'.LookupOk := by
  refine ⟨fun u hne hremote => ?_, fun u hu => ?_⟩
  · by_cases heq : u = t
    · subst heq
      exact haway hne hremote
    · rw [hsym u heq] at hne hremote
      rw [hworker u heq]
      exact hs.away u hne hremote
  · rcases hmutex with hnone | ⟨hsome, hholds⟩ | ⟨hsame, hkeeps⟩
    · cases hnone.symm.trans hu
    · cases hsome.symm.trans hu
      exact hholds
    · have hold := hs.mutex u (hsame ▸ hu)
      by_cases heq : u = t
      · subst heq
        exact hkeeps hold
      · rw [hsym u heq]
        exact hold

/-- A step of `getSym` that does not use the worker. -/
theorem LookupOk.goSym {t : T} {pc : SymPc} (hs : p.LookupOk) (hpc : p.sym t ≠ .idle)
    (hremote : ∀ key, p.sym t ≠ .remote key) (hworker : p'.worker = p.worker)
    (hsym : p'.sym = Function.update p.sym t pc)
    (hmutex : p'.symMtx = none ∨ (p'.symMtx = some t ∧ pc.holds = true) ∨
      p'.symMtx = p.symMtx ∧ ((p.sym t).holds = true → pc.holds = true)) : p'.LookupOk := by
  have hself : p'.sym t = pc := by rw [hsym, Function.update_self]
  refine hs.of_caller t (fun u _ => by rw [hworker]) (fun u hu => ?_) (fun _ _ => ?_) ?_
  · rw [hsym, Function.update_of_ne hu]
  · rw [hworker]
    exact hs.away t hpc hremote
  · rw [hself]
    exact hmutex

theorem LookupOk.lockSym {t : T} {pc : SymPc} (hs : p.LookupOk) (hpc : p.sym t ≠ .idle)
    (hremote : ∀ key, p.sym t ≠ .remote key) (hholds : pc.holds = true)
    (h : p.lockSym t pc = some p') : p'.LookupOk := by
  unfold ProcHandle.lockSym at h
  split at h
  · cases h
    exact hs.goSym hpc hremote rfl rfl (.inr (.inl ⟨rfl, hholds⟩))
  · cases h

theorem LookupOk.next (P : Platform) {t : T} (hs : p.LookupOk) (h : p.next func t = some p') : p'.LookupOk := by
  unfold ProcHandle.next at h
  split at h
  case h_1 => cases h
  case h_2 key ht => exact hs.lockSym (by simp [ht]) (by simp [ht]) rfl h
  case h_9 key symaddr ht => exact hs.lockSym (by simp [ht]) (by simp [ht]) rfl h
  case h_3 key ht =>
    cases h
    refine hs.goSym (by simp [ht]) (by simp [ht]) rfl rfl (.inr (.inr ⟨rfl, fun _ => ?_⟩))
    split <;> rfl
  case h_4 key ht | h_5 key ht =>
    cases h
    exact hs.goSym (by simp [ht]) (by simp [ht]) rfl rfl (.inl rfl)
  case h_6 key ht =>
    obtain ⟨symaddr, -, rfl⟩ := Option.map_eq_some_iff.mp h
    exact hs.goSym (by simp [ht]) (by simp [ht]) rfl rfl (.inr (.inr ⟨rfl, by simp [ht, SymPc.holds]⟩))
  case h_7 key ht =>
    obtain ⟨w, hstart, rfl⟩ := Option.map_eq_some_iff.mp h
    have hstep : Step P p.worker (.start t (.doOnContext false func)) w := startCall_cases hstart
    refine hs.of_caller t (fun u hu => ?_) (fun u hu => Function.update_of_ne hu _ _) ?_
      (.inr (.inr ⟨rfl, by simp [ht, SymPc.holds]⟩))
    · refine (hstep.other (by simp) fun op heq => hu ?_).1
      cases heq
      rfl
    · intro _ hremote
      exact absurd (Function.update_self _ _ _) (hremote key)
  case h_8 key ht =>
    obtain ⟨w, hcaller, rfl⟩ := Option.map_eq_some_iff.mp h
    have hstep : Step P p.worker (.caller t) w := callerStep_cases hcaller
    have hother (u : T) (hu : u ≠ t) : w.pc u = p.worker.pc u := by
      refine (hstep.other (fun heq => hu ?_) (by simp)).1
      cases heq
      rfl
    have hmutex : (p.sym t).holds = false := by rw [ht]; rfl
    split
    · rename_i r hdone
      refine hs.of_caller t hother (fun u hu => Function.update_of_ne hu _ _) (fun _ _ => ?_)
        (.inr (.inr ⟨rfl, by simp [hmutex]⟩))
      simp only [Sys.callerStep, hdone] at hcaller
      cases hcaller
      exact Function.update_self _ _ _
    · refine hs.of_caller t hother (fun _ _ => rfl) (fun _ hremote => absurd ht (hremote key))
        (.inr (.inr ⟨rfl, id⟩))
  case h_10 key symaddr ht =>
    cases h
    exact hs.goSym (by simp [ht]) (by simp [ht]) rfl rfl (.inr (.inr ⟨rfl, fun _ => rfl⟩))
  case h_11 key symaddr ht =>
    cases h
    exact hs.goSym (by simp [ht]) (by simp [ht]) rfl rfl (.inl rfl)
  case h_12 key symaddr ht =>
    cases h
    exact hs.goSym (by simp [ht]) (by simp [ht]) rfl rfl (.inr (.inr ⟨rfl, by simp [ht, SymPc.holds]⟩))
  case h_13 ht =>
    cases h
    exact hs.goSym (by simp [ht]) (by simp [ht]) rfl rfl (.inr (.inr ⟨rfl, by simp [ht, SymPc.holds]⟩))

theorem LookupOk.workerStep (hs : p.LookupOk) (h : p.workerStep P a = some p') : p'.LookupOk := by
  cases a with
  | start t op =>
      simp only [ProcHandle.workerStep] at h
      split at h
      · rename_i hc
        obtain ⟨w, hstart, rfl⟩ := Option.map_eq_some_iff.mp h
        have hstep : Step P p.worker (.start t op) w := startCall_cases hstart
        refine hs.of_caller t (fun u hu => ?_) (fun _ _ => rfl) (fun hne => absurd hc.1 hne)
          (.inr (.inr ⟨rfl, id⟩))
        refine (hstep.other (by simp) fun op' heq => hu ?_).1
        cases heq
        rfl
      · cases h
  | caller t =>
      simp only [ProcHandle.workerStep] at h
      split at h
      · rename_i hidle
        obtain ⟨w, hcaller, rfl⟩ := Option.map_eq_some_iff.mp h
        have hstep : Step P p.worker (.caller t) w := callerStep_cases hcaller
        refine hs.of_caller t (fun u hu => ?_) (fun _ _ => rfl) (fun hne => absurd hidle hne)
          (.inr (.inr ⟨rfl, id⟩))
        refine (hstep.other (fun heq => hu ?_) (by simp)).1
        cases heq
        rfl
      · cases h
  | pseudo env =>
      simp only [ProcHandle.workerStep] at h
      split at h
      · obtain ⟨w, hpseudo, rfl⟩ := Option.map_eq_some_iff.mp h
        have hpc := (pseudoStep_cases hpseudo).callerFrame.pc
        exact ⟨fun t hne hremote => (congrFun hpc t).trans (hs.away t hne hremote), hs.mutex⟩
      · cases h

theorem LookupOk.step (hs : p.LookupOk) (h : p.step P func act = some p') : p'.LookupOk := by
  cases act with
  | getSym t libhdl symname =>
      simp only [ProcHandle.step, ProcHandle.getSym] at h
      split at h
      · rename_i hidle
        cases h
        refine hs.of_caller t (fun _ _ => rfl) (fun u hu => Function.update_of_ne hu _ _)
          (fun _ _ => hidle.2) (.inr (.inr ⟨rfl, ?_⟩))
        simp [hidle.1, SymPc.holds]
      · cases h
  | next t => exact hs.next P h
  | worker b => exact hs.workerStep h
  | resolve syms =>
      cases h
      exact ⟨hs.away, hs.mutex⟩

theorem Reachable.lookupOk (h : p.Reachable P func) : p.LookupOk := by
  obtain ⟨v, findSym, hrun⟩ := h
  refine hrun.invariant (I := LookupOk) (fun p act p' hs _ hst => hs.step hst) ⟨?_, ?_⟩
  · exact fun t hne => absurd rfl hne
  · exact fun t hu => by cases hu

/-- The steps of the calls under way and of the worker. -/
def proceed (P : Platform) (func : BitVec 64) (p : ProcHandle T) :
    ProcAct T → Option (ProcHandle T)
  | .next t => p.next func t
  | .worker (.caller t) => p.workerStep P (.caller t)
  | .worker (.pseudo env) => p.workerStep P (.pseudo env)
  | .getSym .. | .worker (.start ..) | .resolve _ => none

theorem step_of_proceed (h : p.proceed P func act = some p') : p.step P func act = some p' := by
  cases act with
  | getSym | resolve => cases h
  | next t => exact h
  | worker b =>
      cases b with
      | start t op => cases h
      | caller t | pseudo env => exact h

/-- Nothing is possible but new calls, and libraries that resolve symbols. -/
def AtRest (P : Platform) (func : BitVec 64) (p : ProcHandle T) : Prop :=
  ∀ act, p.proceed P func act = none

/-- An environment in which nothing succeeds, but the VH function returns `v`. -/
def failingDriver (v : BitVec 64) : Env :=
  { brokenDriver with func := v, send := fun _ _ ve => (-1, ve), recv := fun _ _ _ bs => (-1, bs) }

omit [DecidableEq T] in
/-- Such an environment is always possible. -/
theorem answers_failingDriver (p : ProcHandle T) :
    ∃ v, p.answers P (failingDriver v) = true := by
  unfold answers
  split
  · rename_i c hpc hcmd
    cases hsym : p.sym c.caller with
    | remote key =>
        refine ⟨p.findSym key, ?_⟩
        cases hkind : c.kind with
        | close => rfl
        | handler f =>
            cases hf : f.runsVe with
            | true =>
                have hbroken : (failingDriver (p.findSym key)).Broken := rfl
                obtain ⟨e, hexec, -⟩ := exec_broken_ve (P := P) hbroken hf p.worker.thread
                simp [hexec]
            | false =>
                cases f with
                | callVHAsync func =>
                    simp [Handler.exec, callVHAsyncHandler, failingDriver]
                | asyncReadMem dst src size =>
                    simp [Handler.exec, asyncReadMemHandler, failingDriver, transferResult]
                | asyncWriteMem dst src size =>
                    simp [Handler.exec, asyncWriteMemHandler, failingDriver, transferResult]
                | callAsync addr | callOpenContext addr | exitProc addr => cases hf
    | _ => exact ⟨0, rfl⟩
  · exact ⟨0, rfl⟩

/-- At rest the worker is at rest. -/
theorem AtRest.worker (hrest : p.AtRest P func) (hr : Veo.Reachable P p.worker)
    (hs : p.LookupOk) : p.worker.AtRest P := by
  intro a
  cases a with
  | start t op => rfl
  | caller t =>
      change p.worker.callerStep t = none
      by_cases hidle : p.sym t = .idle
      · have hnone : p.workerStep P (.caller t) = none := hrest (.worker (.caller t))
        simpa only [workerStep, if_pos hidle, Option.map_eq_none_iff] using hnone
      · by_cases hremote : ∃ key, p.sym t = .remote key
        · obtain ⟨key, hkey⟩ := hremote
          have hnone : p.next func t = none := hrest (.next t)
          simpa only [next, hkey, Option.map_eq_none_iff] using hnone
        · have hpc := hs.away t hidle fun key hkey => hremote ⟨key, hkey⟩
          simp only [Sys.callerStep, hpc]
  | pseudo env =>
      obtain ⟨v, hv⟩ := answers_failingDriver (P := P) p
      have hnone : p.workerStep P (.pseudo (failingDriver v)) = none :=
        hrest (.worker (.pseudo (failingDriver v)))
      simp only [workerStep, if_pos hv, Option.map_eq_none_iff] at hnone
      have hbroken : (failingDriver v).Broken := rfl
      change p.worker.pseudoStep P env = none
      rcases hr.pseudo_rest hbroken hnone with hfin | ⟨hpop, hempty⟩
      · cases hpc : p.worker.pseudo with
        | returned | exited | aborted => simp only [Sys.pseudoStep, hpc]
        | _ =>
            rw [hpc] at hfin
            cases hfin
      · simp only [Sys.pseudoStep, hpop, Option.map_eq_none_iff]
        exact CommQueue.popRequest_eq_none.mpr hempty

/-- The holder of `sym_mtx` can go on. -/
theorem next_of_holds {t : T} (h : (p.sym t).holds = true) : p.next func t ≠ none := by
  cases hpc : p.sym t with
  | find key | unlockFound key | unlockMissing key | insert key symaddr
  | unlockInsert key symaddr => simp [ProcHandle.next, hpc]
  | _ =>
      rw [hpc] at h
      cases h

/-- While the event loop of the worker goes on, at rest every lookup has returned, and so has every
    other call on the worker. -/
theorem Reachable.returned (h : p.Reachable P func) (hleft : p.worker.IdsLeft)
    (hrest : p.AtRest P func) (hloop : p.worker.pseudo.finished = false) (t : T) :
    p.sym t = .idle ∧ p.worker.pc t = .idle := by
  have hs := h.lookupOk
  have hsym := h.symOk hleft
  obtain ⟨v, findSym, hrun⟩ := h
  have hworker := worker_run hrun
  have hidle := internal_rest hworker hleft (hrest.worker ⟨v, hworker.reaches⟩ hs) hloop
  refine ⟨?_, hidle t⟩
  have hfree : p.symMtx = none := by
    by_contra hheld
    obtain ⟨u, hu⟩ := Option.ne_none_iff_exists'.mp hheld
    exact next_of_holds (hs.mutex u hu) (hrest (.next u))
  have hnone : p.next func t = none := hrest (.next t)
  have hat := hsym.caller t
  unfold ProcHandle.next at hnone
  split at hnone
  case h_1 hpc => exact hpc
  case h_2 key hpc => simp [ProcHandle.lockSym, hfree] at hnone
  case h_9 key symaddr hpc => simp [ProcHandle.lockSym, hfree] at hnone
  case h_6 key hpc =>
    rw [hpc] at hat
    have hsome : (p.symName key).isSome = true := hat
    rw [Option.map_eq_none_iff.mp hnone] at hsome
    cases hsome
  case h_7 key hpc =>
    simp [Sys.startCall, hidle t, Op.locks] at hnone
  case h_8 key hpc =>
    -- in `doOnContext` the caller is not idle
    rw [hpc] at hat
    have hcollecting := hat.1
    rw [hidle t] at hcollecting
    exact hcollecting.elim
  all_goals cases hnone

end ProcHandle

/-! ## Lookups end -/

/-- The steps that a lookup can take, with the work that it makes for the worker. -/
def SymPc.left : SymPc → Nat
  | .idle => 0
  | .returned .. | .threw => 1
  | .read _ | .unlockInsert .. => 2
  | .unlockFound _ | .insert .. => 3
  | .lockInsert .. => 4
  | .remote _ => 5
  | .call _ => 21
  | .unlockMissing _ => 22
  | .find _ => 23
  | .lockFind _ => 24

omit [DecidableEq T] in
theorem Op.start_left (op : Op) : (op.start : Pc T).left ≤ 15 := by
  cases op <;> simp [Op.start, Pc.left]

/-- A call begins. -/
theorem Sys.startCall_left [Fintype T] {t : T} {op : Op} (h : s.startCall t op = some s') :
    s'.left ≤ s.left + 15 := by
  unfold Sys.startCall at h
  split at h
  · rename_i hc
    have hsum := sum_update Pc.left s.pc t op.start
    have hidle : (s.pc t).left = 0 := by rw [hc.1]; rfl
    have hstart := Op.start_left (T := T) op
    have hpc : s'.pc = Function.update s.pc t op.start := by cases h; rfl
    have hseq : s'.seqNo = s.seqNo := by cases h; rfl
    have hdue : s'.due = s.due := by cases h; rfl
    unfold Sys.left
    rw [hpc, hseq, hdue]
    omega
  · cases h

theorem SymPc.afterRemote_left (key : SymKey) (r : Ret) : (SymPc.afterRemote key r).left ≤ 4 := by
  unfold SymPc.afterRemote
  split
  · split <;> simp [SymPc.left]
  · simp [SymPc.left]

namespace ProcHandle

variable [Fintype T] {func : BitVec 64} {p p' : ProcHandle T} {act : ProcAct T}

/-- A bound on the steps that the lookups and the worker can take. -/
def left (p : ProcHandle T) : Nat := p.worker.left + ∑ t, (p.sym t).left

/-- A step of a lookup that does not use the worker. -/
theorem left_lt_of_goSym {t : T} {pc : SymPc} (hworker : p'.worker = p.worker)
    (hsym : p'.sym = Function.update p.sym t pc) (hlt : pc.left < (p.sym t).left) :
    p'.left < p.left := by
  have hsum := sum_update SymPc.left p.sym t pc
  unfold left
  rw [hworker, hsym]
  omega

theorem next_left (P : Platform) {t : T} (h : p.next func t = some p') : p'.left < p.left := by
  have hlock {pc : SymPc} (hlt : pc.left < (p.sym t).left) (h : p.lockSym t pc = some p') :
      p'.left < p.left := by
    unfold ProcHandle.lockSym at h
    split at h
    · cases h
      exact left_lt_of_goSym rfl rfl hlt
    · cases h
  unfold ProcHandle.next at h
  split at h
  case h_1 => cases h
  case h_2 key ht => exact hlock (by simp [ht, SymPc.left]) h
  case h_9 key symaddr ht => exact hlock (by simp [ht, SymPc.left]) h
  case h_3 key ht =>
    cases h
    refine left_lt_of_goSym rfl rfl ?_
    rw [ht]
    split <;> simp [SymPc.left]
  case h_6 key ht =>
    obtain ⟨symaddr, -, rfl⟩ := Option.map_eq_some_iff.mp h
    exact left_lt_of_goSym rfl rfl (by simp [ht, SymPc.left])
  case h_7 key ht =>
    obtain ⟨w, hstart, rfl⟩ := Option.map_eq_some_iff.mp h
    have hworker := Sys.startCall_left hstart
    have hsum := sum_update SymPc.left p.sym t (.remote key)
    have hcost : (SymPc.call key).left = (SymPc.remote key).left + 16 := rfl
    rw [ht, hcost] at hsum
    simp only [left, goSym]
    omega
  case h_8 key ht =>
    obtain ⟨w, hcaller, rfl⟩ := Option.map_eq_some_iff.mp h
    have hstep : Step P p.worker (.caller t) w := callerStep_cases hcaller
    have hworker := hstep.left_caller
    split
    · rename_i r hdone
      have hsum := sum_update SymPc.left p.sym t (.afterRemote key r)
      have hafter := SymPc.afterRemote_left key r
      have hremote : (SymPc.remote key).left = 5 := rfl
      rw [ht, hremote] at hsum
      simp only [left, goSym]
      omega
    · exact Nat.add_lt_add_right hworker _
  all_goals
    rename_i ht
    cases h
    exact left_lt_of_goSym rfl rfl (by simp [ht, SymPc.left])

theorem proceed_left (h : p.proceed P func act = some p') : p'.left < p.left := by
  cases act with
  | getSym | resolve => cases h
  | next t => exact next_left P h
  | worker b =>
      cases b with
      | start t op => cases h
      | caller t =>
          simp only [proceed, workerStep] at h
          split at h
          · obtain ⟨w, hcaller, rfl⟩ := Option.map_eq_some_iff.mp h
            have hstep : p.worker.proceed P (.caller t) = some w := hcaller
            exact Nat.add_lt_add_right (Sys.proceed_left hstep) _
          · cases h
      | pseudo env =>
          simp only [proceed, workerStep] at h
          split at h
          · obtain ⟨w, hpseudo, rfl⟩ := Option.map_eq_some_iff.mp h
            have hstep : p.worker.proceed P (.pseudo env) = some w := hpseudo
            exact Nat.add_lt_add_right (Sys.proceed_left hstep) _
          · cases h

omit [Fintype T] in
theorem reachable_of_proceed {acts : List (ProcAct T)} (h : p.Reachable P func)
    (hrun : runList (proceed P func) (fun _ _ => true) p acts = some p') : p'.Reachable P func := by
  refine runList_induction (I := fun _ q => q.Reachable P func) h ?_ hrun
  rintro _ q act q' ⟨v, findSym, hq⟩ _ hstep
  exact ⟨v, findSym, .tail hq trivial (step_of_proceed hstep)⟩

/-- The lookups under way come to an end. Without new calls, the callers of `getSym`, the other
    callers of the worker and its pseudo thread take a bounded number of steps, in any order. When
    nothing is possible any more and the event loop of the worker has not ended, every lookup and
    every call on the worker has returned. -/
theorem lookups_settle (h : p.Reachable P func) :
    (∀ acts p', runList (proceed P func) (fun _ _ => true) p acts = some p' →
      acts.length ≤ p.left ∧
      (p'.AtRest P func → p'.worker.pseudo.finished = false → p'.worker.IdsLeft →
        ∀ t, p'.sym t = .idle ∧ p'.worker.pc t = .idle)) ∧
    ∃ acts p', runList (proceed P func) (fun _ _ => true) p acts = some p' ∧ p'.AtRest P func := by
  have hdec : ∀ (q : ProcHandle T) act q', q.proceed P func act = some q' → q'.left < q.left :=
    fun _ _ _ => proceed_left
  refine ⟨fun acts p' hrun => ⟨?_, fun hrest hloop hleft => ?_⟩, exists_rest left hdec p⟩
  · have hlen := runList_length_le left hdec hrun
    omega
  · exact (reachable_of_proceed h hrun).returned hleft hrest hloop

/-- Two callers look up one symbol: one waits for the worker, the other one holds `sym_mtx`. -/
def twoLookups : List (ProcAct Bool) :=
  [.worker (.pseudo (replyEnv 0)), .worker (.pseudo (replyEnv 0)), .getSym true 1 [97]] ++
    List.replicate 10 (.next true) ++ [.getSym false 1 [97], .next false]

/-- The steps that bring them to their ends. -/
def twoLookupsEnd : List (ProcAct Bool) :=
  List.replicate 2 (.next false) ++ List.replicate 4 (.worker (.pseudo (replyEnv 5))) ++
    List.replicate 6 (.next true) ++ List.replicate 7 (.next false) ++
    List.replicate 4 (.worker (.pseudo (replyEnv 5))) ++ List.replicate 6 (.next false)

theorem lookups_settle_two :
    ∃ p p' : ProcHandle Bool, p.Reachable linuxPlatform wrapFunc ∧
      p.sym true = .remote (1, [97]) ∧ p.symMtx = some false ∧
      runList (proceed linuxPlatform wrapFunc) (fun _ _ => true) p twoLookupsEnd = some p' ∧
      twoLookupsEnd.length ≤ p.left ∧ p'.AtRest linuxPlatform wrapFunc ∧
      ∀ t, p'.sym t = .idle ∧ p'.worker.pc t = .idle := by
  have heval : ((runList (ProcHandle.step linuxPlatform wrapFunc) (fun _ _ => true)
      (ProcHandle.init newThread fun key => if key = (1, [97]) then 5 else 0) twoLookups).bind
      fun p => (runList (proceed linuxPlatform wrapFunc) (fun _ _ => true) p twoLookupsEnd).map
        fun p' => decide (p.sym true = .remote (1, [97]) ∧ p.symMtx = some false ∧
          p'.worker.pseudo = .pop ∧ p'.worker.comq.request.queue.length = 0 ∧ p'.worker.issued = 2 ∧
          ∀ t, p'.sym t = .idle ∧ p'.worker.pc t = .idle)) = some true := by
    decide +kernel
  obtain ⟨p, hp, heval⟩ := Option.bind_eq_some_iff.mp heval
  obtain ⟨p', hp', heval⟩ := Option.map_eq_some_iff.mp heval
  obtain ⟨hremote, hmutex, hpop, hempty, hissued, hidle⟩ := of_decide_eq_true heval
  have hreach : p.Reachable linuxPlatform wrapFunc :=
    ⟨_, _, run_of_runList (fun _ _ _ => trivial) hp⟩
  have hrest : p'.AtRest linuxPlatform wrapFunc := by
    intro act
    cases act with
    | getSym | resolve => rfl
    | next t => simp only [proceed, ProcHandle.next, (hidle t).1]
    | worker b =>
        cases b with
        | start t op => rfl
        | caller t => simp [proceed, workerStep, Sys.callerStep, hidle t]
        | pseudo env =>
            have hnone := CommQueue.popRequest_eq_none.mpr (List.length_eq_zero_iff.mp hempty)
            simp [proceed, workerStep, Sys.pseudoStep, hpop, hnone]
  have hleft : p'.worker.IdsLeft := by
    rw [Sys.IdsLeft, hissued]
    decide
  obtain ⟨hlen, hend⟩ := (lookups_settle hreach).1 _ _ hp'
  exact ⟨p, p', hreach, hremote, hmutex, hp', hlen, hrest, hend hrest (by rw [hpop]; rfl) hleft⟩

end ProcHandle

end Veo
