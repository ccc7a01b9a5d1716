-- SUMMARY: The creation of a pseudo thread: the semaphore between `handleCloneRequest` and `startEventLoop`.
import Veo.ThreadContext.Steps

/-!
# The start of a pseudo thread

`handleCloneRequest` passes the new thread an argument and a semaphore that live in its own
stack frame, and waits for the semaphore before it returns. The new thread reads the
argument, fills in the context and posts the semaphore; then it is the pseudo thread of the
context. Here every access of the two threads to the shared frame is a step, and an access to
a frame that is gone, or to a semaphore that is not initialised, is a fault.
-/

namespace Veo

open Transition

variable {T : Type}

/-- Where the thread in `handleCloneRequest` is. -/
inductive Parent where
  | semInit
  | clone
  | semWait (rv : Int)
  | semDestroy (rv : Int)
  /-- Before the frame is left. -/
  | leave (rv : Int)
  | returned (rv : Int)
  | threw
deriving DecidableEq

/-- Where the new thread is in `start_child_thread` and `startEventLoop`. -/
inductive Child where
  | none
  /-- `ap->context` and `ap->semaphore` are read. -/
  | readArg
  | setHandle
  | setThread
  | setState
  | semPost
  /-- After the semaphore is posted: the steps of the pseudo thread. -/
  | loop
deriving DecidableEq

inductive Semaphore where
  | uninitialized
  | ready (value : Nat)
  | destroyed
deriving DecidableEq

/-- The threads that `os_handle` and `pseudo_thread` may refer to. -/
inductive Side where
  | parent | child
deriving DecidableEq

structure Handshake (T : Type) where
  parent : Parent
  child : Child
  sem : Semaphore
  /-- The frame of `handleCloneRequest`, with `arg` and the semaphore, is there. -/
  frame : Bool
  /-- The new context, and the owner of its `os_handle` and `pseudo_thread`. -/
  ctx : Sys T
  osHandle : Side
  pseudoThread : Side
  fault : Bool

/-- A context that the constructor `ThreadContext` has just built. -/
def Sys.created (t : VeThread) : Sys T := (Sys.init t).setState .unknown

/-- The call of `handleCloneRequest` on a new context. -/
def Handshake.start (t : VeThread) : Handshake T where
  parent := .semInit
  child := .none
  sem := .uninitialized
  frame := true
  ctx := .created t
  osHandle := .parent
  pseudoThread := .parent
  fault := false

/-- The steps of the two threads, with the results of the functions they call, and the use of
    the context by others once `handleCloneRequest` has returned. -/
inductive Handshake.Act (T : Type) where
  | semInit (ok : Bool)
  | clone (rv : Int)
  | semWait
  /-- `sem_wait` is interrupted by a signal. -/
  | eintr
  | semDestroy
  | leave
  | child (env : Env)
  | use (a : Veo.Act T)

/-- The steps that are left to a thread. -/
def Parent.left : Parent → Nat
  | .semInit => 12
  | .clone => 11
  | .semWait _ => 3
  | .semDestroy _ => 2
  | .leave _ => 1
  | .returned _ | .threw => 0

def Child.left : Child → Nat
  | .readArg => 6
  | .setHandle => 5
  | .setThread => 4
  | .setState => 3
  | .semPost => 2
  | .none | .loop => 0

namespace Handshake

section Step
variable [DecidableEq T] (P : Platform)

/-- The next step of the new thread. -/
def childStep (h : Handshake T) (env : Env) : Option (Handshake T) :=
  match h.child with
  | .none => none
  | .readArg => if h.frame then some { h with child := .setHandle } else some { h with fault := true }
  | .setHandle => some { h with osHandle := .child, child := .setThread }
  | .setThread => some { h with pseudoThread := .child, child := .setState }
  | .setState => some { h with ctx := h.ctx.setState .running, child := .semPost }
  | .semPost =>
    match h.frame, h.sem with
    | true, .ready n => some { h with sem := .ready (n + 1), child := .loop }
    | _, _ => some { h with fault := true }
  | .loop => (h.ctx.pseudoStep P env).map fun ctx => { h with ctx := ctx }

def step (h : Handshake T) : Handshake.Act T → Option (Handshake T)
  | .semInit ok =>
    if h.parent = .semInit then
      if ok then some { h with parent := .clone, sem := .ready 0 }
      else some { h with parent := .threw, frame := false }
    else none
  | .clone rv =>
    if h.parent = .clone then
      if rv < 0 then some { h with parent := .returned rv, frame := false }
      else some { h with parent := .semWait rv, child := .readArg }
    else none
  | .semWait =>
    match h.parent, h.sem with
    | .semWait rv, .ready (n + 1) => some { h with parent := .semDestroy rv, sem := .ready n }
    | _, _ => none
  | .eintr =>
    match h.parent with
    | .semWait _ => some h
    | _ => none
  | .semDestroy =>
    match h.parent with
    | .semDestroy rv => some { h with parent := .leave rv, sem := .destroyed }
    | _ => none
  | .leave =>
    match h.parent with
    | .leave rv => some { h with parent := .returned rv, frame := false }
    | _ => none
  | .child env => h.childStep P env
  | .use a =>
    match h.parent with
    | .returned _ =>
      if a.isPseudo then none else (h.ctx.step P a).map fun ctx => { h with ctx := ctx }
    | _ => none

end Step

/-! ## The stages of the protocol -/

/-- The context as the callers alone leave it, without a pseudo thread. -/
def Unserved [DecidableEq T] (P : Platform) (t : VeThread) (s : Sys T) : Prop :=
  Run (Sys.step P) (fun _ a => a.isPseudo = false) (Sys.created t) s

/-- All the states of a handshake on a context with the VE thread `t`. -/
inductive Stage [DecidableEq T] (P : Platform) (t : VeThread) : Handshake T → Prop where
  | start : Stage P t (Handshake.start t)
  | threw : Stage P t { Handshake.start t with parent := .threw, frame := false }
  | ready : Stage P t { Handshake.start t with parent := .clone, sem := .ready 0 }
  /-- `ve__do_clone` failed. -/
  | refused {rv : Int} {s : Sys T} (hrv : rv < 0) (hs : Unserved P t s) :
      Stage P t { Handshake.start t with
        parent := .returned rv, sem := .ready 0, frame := false, ctx := s }
  /-- The new thread has not set the state yet. -/
  | early {rv : Int} {child : Child} {hdl thr : Side} (hrv : 0 ≤ rv)
      (hchild : (child = .readArg ∨ child = .setHandle) ∨
        (child = .setThread ∧ hdl = .child) ∨ (child = .setState ∧ hdl = .child ∧ thr = .child)) :
      Stage P t ⟨.semWait rv, child, .ready 0, true, .created t, hdl, thr, false⟩
  | set {rv : Int} (hrv : 0 ≤ rv) :
      Stage P t ⟨.semWait rv, .semPost, .ready 0, true, .init t, .child, .child, false⟩
  /-- The semaphore is posted. -/
  | posted {rv : Int} {s : Sys T} (hrv : 0 ≤ rv) (hs : Reaches (Sys.step P) (.init t) s) :
      Stage P t ⟨.semWait rv, .loop, .ready 1, true, s, .child, .child, false⟩
  | taken {rv : Int} {s : Sys T} (hrv : 0 ≤ rv) (hs : Reaches (Sys.step P) (.init t) s) :
      Stage P t ⟨.semDestroy rv, .loop, .ready 0, true, s, .child, .child, false⟩
  | destroyed {rv : Int} {s : Sys T} (hrv : 0 ≤ rv) (hs : Reaches (Sys.step P) (.init t) s) :
      Stage P t ⟨.leave rv, .loop, .destroyed, true, s, .child, .child, false⟩
  | returned {rv : Int} {s : Sys T} (hrv : 0 ≤ rv) (hs : Reaches (Sys.step P) (.init t) s) :
      Stage P t ⟨.returned rv, .loop, .destroyed, false, s, .child, .child, false⟩

section Invariant
variable [DecidableEq T] {P : Platform} {t : VeThread} {h h' : Handshake T} {a : Handshake.Act T}

/-- The pseudo thread and the callers take the context along its own runs. -/
theorem reaches_use {s s' : Sys T} {a : Veo.Act T} (hs : Reaches (Sys.step P) (.init t) s)
    (hstep : s.step P a = some s') : Reaches (Sys.step P) (.init t) s' :=
  .tail hs trivial hstep

/-- A context with a pseudo thread, used by its callers after the parent has returned. -/
theorem Stage.use {s : Sys T} {rv : Int} {a : Veo.Act T} (hrv : 0 ≤ rv)
    (hs : Reaches (Sys.step P) (.init t) s)
    (hstep : step P ⟨.returned rv, .loop, .destroyed, false, s, .child, .child, false⟩ (.use a) =
      some h') : Stage P t h' := by
  simp only [step] at hstep
  split at hstep
  · cases hstep
  · obtain ⟨s', hs', heq⟩ := Option.map_eq_some_iff.mp hstep
    cases heq
    exact .returned hrv (reaches_use hs hs')

/-- The step of the new thread. -/
theorem Stage.childStep (hh : Stage P t h) {env : Env} (hstep : h.childStep P env = some h') :
    Stage P t h' := by
  cases hh with
  | start | threw | ready | refused => cases hstep
  | @early rv child hdl thr hrv hchild =>
      rcases hchild with (rfl | rfl) | ⟨rfl, rfl⟩ | ⟨rfl, rfl, rfl⟩ <;> cases hstep
      · exact .early hrv (by simp)
      · exact .early hrv (by simp)
      · exact .early hrv (by simp)
      · exact .set hrv
  | set hrv =>
      cases hstep
      exact .posted hrv (.refl _)
  | posted hrv hs =>
      obtain ⟨s', hs', heq⟩ := Option.map_eq_some_iff.mp hstep
      cases heq
      exact .posted hrv (reaches_use (a := .pseudo env) hs hs')
  | taken hrv hs =>
      obtain ⟨s', hs', heq⟩ := Option.map_eq_some_iff.mp hstep
      cases heq
      exact .taken hrv (reaches_use (a := .pseudo env) hs hs')
  | destroyed hrv hs =>
      obtain ⟨s', hs', heq⟩ := Option.map_eq_some_iff.mp hstep
      cases heq
      exact .destroyed hrv (reaches_use (a := .pseudo env) hs hs')
  | returned hrv hs =>
      obtain ⟨s', hs', heq⟩ := Option.map_eq_some_iff.mp hstep
      cases heq
      exact .returned hrv (reaches_use (a := .pseudo env) hs hs')

theorem Stage.step (hh : Stage P t h) (hstep : h.step P a = some h') : Stage P t h' := by
  cases a with
  | child env => exact hh.childStep hstep
  | semInit ok =>
      cases hh with
      | start =>
          cases ok <;> cases hstep
          · exact .threw
          · exact .ready
      | _ => cases hstep
  | clone rv =>
      cases hh with
      | ready =>
          simp only [Handshake.step, if_true] at hstep
          split at hstep <;> cases hstep
          · exact .refused ‹_› (.refl _)
          · exact .early (Int.not_lt.mp ‹_›) (by simp)
      | _ => cases hstep
  | semWait =>
      cases hh with
      | posted hrv hs =>
          cases hstep
          exact .taken hrv hs
      | _ => cases hstep
  | eintr =>
      cases hh with
      | early hrv hchild =>
          cases hstep
          exact .early hrv hchild
      | set hrv =>
          cases hstep
          exact .set hrv
      | posted hrv hs =>
          cases hstep
          exact .posted hrv hs
      | _ => cases hstep
  | semDestroy =>
      cases hh with
      | taken hrv hs =>
          cases hstep
          exact .destroyed hrv hs
      | _ => cases hstep
  | leave =>
      cases hh with
      | destroyed hrv hs =>
          cases hstep
          exact .returned hrv hs
      | _ => cases hstep
  | use a =>
      cases hh with
      | returned hrv hs => exact Stage.use hrv hs hstep
      | refused hrv hs =>
          simp only [Handshake.step] at hstep
          split at hstep
          · cases hstep
          · rename_i hpseudo
            obtain ⟨s', hs', heq⟩ := Option.map_eq_some_iff.mp hstep
            cases heq
            exact .refused hrv (.tail hs (Bool.eq_false_iff.mpr hpseudo) hs')
      | _ => cases hstep

theorem stage_of_reaches (hreach : Reaches (Handshake.step P) (Handshake.start t) h) :
    Stage P t h :=
  hreach.invariant (fun _ _ _ hh _ hstep => hh.step hstep) .start

/-! ## A context without a pseudo thread -/

/-- Nothing has come out of the context. -/
structure Silent (s : Sys T) : Prop where
  state : s.thread.state = .unknown
  completion : s.comq.completion.queue = []
  delivered : s.delivered = []

omit [DecidableEq T] in
theorem findCompletion_nil {q : CommQueue T} {id : BitVec 64} (hq : q.completion.queue = []) :
    q.findCompletion id = none := by
  simp [CommQueue.findCompletion, BlockingQueue.tryFind, BlockingQueue.takeFirst, hq]

theorem Silent.step {s s' : Sys T} {a : Veo.Act T} (hs : Silent s) (ha : a.isPseudo = false)
    (h : Step P s a s') : Silent s' := by
  have hframe := h.pseudoFrame fun env heq => by simp [heq, Act.isPseudo] at ha
  have hnone (id : BitVec 64) : s.comq.findCompletion id = none := findCompletion_nil hs.completion
  have hstate : s'.thread.state = .unknown := by rw [hframe.thread, hs.state]
  cases h with
  | peekTake t id c q hpc hfind hmem
  | peekLost t id c q hpc hfind hmem
  | waitTake t id w c q hpc hfind
  | exitTake t id c q hpc hfind
  | closeTake t id c q hpc hfind =>
      rw [hnone id] at hfind
      cases hfind
  | _ => first | exact ⟨hstate, hs.completion, hs.delivered⟩ | cases ha

theorem Unserved.silent {s : Sys T} (hs : Unserved P t s) : Silent s :=
  Run.invariant (fun _ _ _ hs ha hstep => hs.step ha (Sys.step_cases hstep)) hs ⟨rfl, rfl, rfl⟩

/-! ## Safety -/

/-- Whatever the order of the steps, the new thread never touches a frame that is gone or a
    semaphore that is not there. When `handleCloneRequest` returns a thread ID, the context is
    filled in and behaves as one whose pseudo thread has just started; when it returns an
    error, nothing that is submitted to the context ever comes back. -/
theorem handleCloneRequest_safe (hreach : Reaches (Handshake.step P) (Handshake.start t) h) :
    h.fault = false ∧
    ∀ rv, h.parent = .returned rv →
      (0 ≤ rv → h.child = .loop ∧ h.osHandle = .child ∧ h.pseudoThread = .child ∧
        h.sem = .destroyed ∧ Reachable P h.ctx) ∧
      (rv < 0 → h.child = .none ∧ Silent h.ctx) := by
  cases stage_of_reaches hreach with
  | returned hrv hs =>
      refine ⟨rfl, fun rv hret => ?_⟩
      cases hret
      exact ⟨fun _ => ⟨rfl, rfl, rfl, rfl, t, hs⟩, fun hneg => absurd hrv (Int.not_le.mpr hneg)⟩
  | refused hrv hs =>
      refine ⟨rfl, fun rv hret => ?_⟩
      cases hret
      exact ⟨fun hpos => absurd hrv (Int.not_lt.mpr hpos), fun _ => ⟨rfl, hs.silent⟩⟩
  | _ => exact ⟨rfl, fun rv hret => by cases hret⟩

/-! ## Progress -/

/-- A bound on the steps that are left until `handleCloneRequest` is over. -/
def left (h : Handshake T) : Nat := h.parent.left + h.child.left

/-- `handleCloneRequest` is over. -/
def Over (h : Handshake T) : Prop := h.parent = .threw ∨ ∃ rv, h.parent = .returned rv

/-- No step makes the rest of the protocol longer. -/
theorem Stage.left_le (hh : Stage P t h) (hstep : h.step P a = some h') : h'.left ≤ h.left := by
  cases a with
  | child env =>
      cases hh with
      | start | threw | ready | refused => cases hstep
      | early hrv hchild =>
          rcases hchild with (rfl | rfl) | ⟨rfl, rfl⟩ | ⟨rfl, rfl, rfl⟩ <;> cases hstep <;>
            simp [left, Child.left]
      | set hrv =>
          cases hstep
          simp [left, Child.left]
      | posted | taken | destroyed | returned =>
          obtain ⟨s', -, heq⟩ := Option.map_eq_some_iff.mp hstep
          cases heq
          exact Nat.le_refl _
  | semInit ok =>
      simp only [Handshake.step] at hstep
      split at hstep
      · rename_i hpc
        cases ok <;> cases hstep <;> simp [left, hpc, Parent.left]
      · cases hstep
  | clone rv =>
      cases hh with
      | ready =>
          simp only [Handshake.step, if_true] at hstep
          split at hstep <;> cases hstep <;> simp [left, Handshake.start, Parent.left, Child.left]
      | _ => cases hstep
  | semWait =>
      simp only [Handshake.step] at hstep
      split at hstep
      · rename_i hpc hsem
        cases hstep
        simp [left, hpc, Parent.left]
      · cases hstep
  | eintr =>
      simp only [Handshake.step] at hstep
      split at hstep <;> cases hstep
      exact Nat.le_refl _
  | semDestroy | leave =>
      simp only [Handshake.step] at hstep
      split at hstep
      · rename_i hpc
        cases hstep
        simp [left, hpc, Parent.left]
      · cases hstep
  | use a =>
      simp only [Handshake.step] at hstep
      split at hstep
      · split at hstep
        · cases hstep
        · obtain ⟨s', -, heq⟩ := Option.map_eq_some_iff.mp hstep
          cases heq
          exact Nat.le_refl _
      · cases hstep

/-- The protocol never gets stuck: until `handleCloneRequest` is over, one of the two threads
    can take a step towards the end, and no step of anybody, interrupted waits included, leads
    away from it. At most twelve steps are needed. -/
theorem handleCloneRequest_progress
    (hreach : Reaches (Handshake.step P) (Handshake.start t) h) :
    h.left ≤ 12 ∧ (∀ a h', h.step P a = some h' → h'.left ≤ h.left) ∧
    (h.Over ∨ ∃ a h', h.step P a = some h' ∧ h'.left < h.left) := by
  have hstage := stage_of_reaches hreach
  refine ⟨?_, fun a h' => hstage.left_le, ?_⟩
  · cases hstage with
    | early hrv hchild =>
        rcases hchild with (rfl | rfl) | ⟨rfl, rfl⟩ | ⟨rfl, rfl, rfl⟩ <;>
          simp [left, Parent.left, Child.left]
    | _ => simp [left, Handshake.start, Parent.left, Child.left]
  · cases hstage with
    | threw => exact .inl (.inl rfl)
    | refused => exact .inl (.inr ⟨_, rfl⟩)
    | returned => exact .inl (.inr ⟨_, rfl⟩)
    | start => exact .inr ⟨.semInit true, _, rfl, by simp [left, Handshake.start, Parent.left]⟩
    | ready =>
        exact .inr ⟨.clone 1, _, rfl, by simp [left, Handshake.start, Parent.left, Child.left]⟩
    | early hrv hchild =>
        refine .inr ⟨.child (.plain [] []), ?_⟩
        rcases hchild with (rfl | rfl) | ⟨rfl, rfl⟩ | ⟨rfl, rfl, rfl⟩ <;>
          exact ⟨_, rfl, by simp [left, Child.left]⟩
    | set hrv => exact .inr ⟨.child (.plain [] []), _, rfl, by simp [left, Child.left]⟩
    | posted hrv hs => exact .inr ⟨.semWait, _, rfl, by simp [left, Parent.left]⟩
    | taken hrv hs => exact .inr ⟨.semDestroy, _, rfl, by simp [left, Parent.left]⟩
    | destroyed hrv hs => exact .inr ⟨.leave, _, rfl, by simp [left, Parent.left]⟩

end Invariant

/-- A clone that succeeds; the first wait is interrupted. -/
def cloned : List (Handshake.Act Unit) :=
  [.semInit true, .clone 7, .eintr, .child (.plain [] []), .child (.plain [] []),
   .child (.plain [] []), .child (.plain [] []), .child (.plain [] []), .semWait, .semDestroy,
   .leave]

theorem handleCloneRequest_safe_cloned :
    ∃ h : Handshake Unit,
      Reaches (Handshake.step linuxPlatform) (Handshake.start ⟨.unknown, 0, fun _ => 0, [], []⟩) h ∧
      h.parent = .returned 7 ∧ h.fault = false ∧ Reachable linuxPlatform h.ctx := by
  obtain ⟨h, hreach, hp⟩ := exists_reaches (Handshake.step linuxPlatform)
    (Handshake.start ⟨.unknown, 0, fun _ => 0, [], []⟩ : Handshake Unit) cloned
    (fun h => h.parent = .returned 7) (by decide)
  have hret := of_decide_eq_true hp
  have hsafe := handleCloneRequest_safe hreach
  exact ⟨h, hreach, hret, hsafe.1, ((hsafe.2 7 hret).1 (by decide)).2.2.2.2⟩

theorem handleCloneRequest_progress_waiting :
    ∃ h : Handshake Unit,
      Reaches (Handshake.step linuxPlatform) (Handshake.start ⟨.unknown, 0, fun _ => 0, [], []⟩) h ∧
      h.parent = .semWait 7 ∧
      (h.Over ∨ ∃ a h', h.step linuxPlatform a = some h' ∧ h'.left < h.left) := by
  obtain ⟨h, hreach, hp⟩ := exists_reaches (Handshake.step linuxPlatform)
    (Handshake.start ⟨.unknown, 0, fun _ => 0, [], []⟩ : Handshake Unit) (cloned.take 4)
    (fun h => h.parent = .semWait 7) (by decide)
  exact ⟨h, hreach, of_decide_eq_true hp, (handleCloneRequest_progress hreach).2.2⟩

end Handshake

end Veo
