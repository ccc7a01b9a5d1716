-- SUMMARY: What a step of the system can do, as one relation with a case for every kind of step.
import Veo.ThreadContext.Basic
import Veo.Handlers.Effects

/-!
# What a step can do

`Step P s a s'` lists the steps of the system with their conditions and effects.
`Sys.step_cases` says that the step function takes no other steps; every invariant is
proved by cases on `Step`.
-/

namespace Veo

variable {T : Type} [DecidableEq T]

/-- The steps of a caller that change nothing but its own position. -/
inductive Moves (s : Sys T) : Pc T → Pc T → Prop where
  | refused (f : Handler) (k : After) (h : f.isNull = true ∨ s.thread.state = .exit) :
      Moves s (.test f k) (k.next requestIdInvalid)
  | tested (f : Handler) (k : After) (h : s.thread.state ≠ .exit) :
      Moves s (.test f k) (.issue (.handler f) k)
  | ready (c : Command T) (k : After) (h : s.comq.request.status = .ready) :
      Moves s (.load c k) (.push c k)
  | rejected (c : Command T) (k : After) (h : s.comq.request.status ≠ .ready) :
      Moves s (.load c k) (k.next (c.kind.rejectedId c.msgid))
  | peekUnknown (id : BitVec 64) (h : id ∉ s.remReqid) :
      Moves s (.peekFind id) (.done (.result .error none))
  | waitUnknown (id : BitVec 64) (w : Waiter) (h : id ∉ s.remReqid) :
      Moves s (.waitErase id w) (.done (w.returns .error none))
  | exitSkipped (addr : BitVec 64) : Moves s (.exitTest addr) (.done .unit)
  | exitTested (addr : BitVec 64) :
      Moves s (.exitTest addr) (.issue (.handler (.exitProc addr)) .exit)
  | closeSkipped (h : s.thread.state = .exit) : Moves s .closeTest .delete
  | closeTested (h : s.thread.state ≠ .exit) : Moves s .closeTest (.issue .close .close)

/-- The places where the pseudo thread pushes a completion, and where it goes on. -/
inductive Completes : Pseudo → Pseudo → Prop where
  | complete : Completes .complete .test
  | failPush : Completes .failPush .drain
  | drainPush : Completes .drainPush .drain
  | closeReply : Completes .closeReply .exited

theorem Completes.phases {p q : Pseudo} (h : Completes p q) :
    (p = .complete ∧ q = .test) ∨ (p = .failPush ∧ q = .drain) ∨ (p = .drainPush ∧ q = .drain) ∨
      (p = .closeReply ∧ q = .exited) := by
  cases h <;> simp

/-- The steps of the system. -/
inductive Step (P : Platform) (s : Sys T) : Act T → Sys T → Prop where
  | start (t : T) (op : Op) (hpc : s.pc t = .idle) :
      Step P s (.start t op) { s with
        pc := Function.update s.pc t op.start
        calls := Function.update s.calls t (s.calls t + 1)
        mainMutex := if op.locks then some t else s.mainMutex }
  | move (t : T) (pc pc' : Pc T) (hpc : s.pc t = pc) (h : Moves s pc pc') :
      Step P s (.caller t) { s with pc := Function.update s.pc t pc' }
  | issueSkip (t : T) (kind : Kind) (k : After) (hpc : s.pc t = .issue kind k)
      (h : s.seqNo = requestIdInvalid) :
      Step P s (.caller t) { s with seqNo := s.seqNo + 1, issued := s.issued + 1 }
  | issue (t : T) (kind : Kind) (k : After) (hpc : s.pc t = .issue kind k)
      (h : s.seqNo ≠ requestIdInvalid) :
      Step P s (.caller t) { s with
        seqNo := s.seqNo + 1, issued := s.issued + 1,
        pc := Function.update s.pc t (.insert s.seqNo kind k) }
  | insert (t : T) (id : BitVec 64) (kind : Kind) (k : After) (hpc : s.pc t = .insert id kind k)
      (hfree : s.reqMtx = none) :
      Step P s (.caller t) { s with
        remReqid := insert id s.remReqid,
        pc := Function.update s.pc t (.load ⟨⟨t, s.calls t, id, kind⟩, none⟩ k) }
  | push (t : T) (c : Command T) (k : After) (hpc : s.pc t = .push c k) :
      Step P s (.caller t) { s with
        comq := s.comq.pushRequest c, accepted := s.accepted ++ [c.toTicket],
        pc := Function.update s.pc t (k.next c.msgid) }
  | peekLock (t : T) (id : BitVec 64) (hpc : s.pc t = .peekFind id) (hfree : s.reqMtx = none)
      (hmem : id ∈ s.remReqid) :
      Step P s (.caller t) { s with
        reqMtx := some t, pc := Function.update s.pc t (.peekSearch id) }
  | peekNone (t : T) (id : BitVec 64) (hpc : s.pc t = .peekSearch id)
      (hfind : s.comq.findCompletion id = none) :
      Step P s (.caller t) { s with
        reqMtx := none, pc := Function.update s.pc t (.done (.result .unfinished none)) }
  | peekTake (t : T) (id : BitVec 64) (c : Command T) (q : CommQueue T)
      (hpc : s.pc t = .peekSearch id) (hfind : s.comq.findCompletion id = some (c, q))
      (hmem : id ∈ s.remReqid) :
      Step P s (.caller t) { s with
        comq := q, delivered := s.delivered ++ [⟨t, id, c, Sys.resultOf .user c⟩],
        remReqid := s.remReqid.erase id, reqMtx := none,
        pc := Function.update s.pc t (.done (Sys.resultOf .user c)) }
  | peekLost (t : T) (id : BitVec 64) (c : Command T) (q : CommQueue T)
      (hpc : s.pc t = .peekSearch id) (hfind : s.comq.findCompletion id = some (c, q))
      (hmem : id ∉ s.remReqid) :
      Step P s (.caller t) { s with
        comq := q, reqMtx := none, pc := Function.update s.pc t (.done (.result .error none)) }
  | waitErase (t : T) (id : BitVec 64) (w : Waiter) (hpc : s.pc t = .waitErase id w)
      (hfree : s.reqMtx = none) (hmem : id ∈ s.remReqid) :
      Step P s (.caller t) { s with
        remReqid := s.remReqid.erase id, pc := Function.update s.pc t (.waitFor id w) }
  | waitTake (t : T) (id : BitVec 64) (w : Waiter) (c : Command T) (q : CommQueue T)
      (hpc : s.pc t = .waitFor id w) (hfind : s.comq.findCompletion id = some (c, q)) :
      Step P s (.caller t) { s with
        comq := q, delivered := s.delivered ++ [⟨t, id, c, Sys.resultOf w c⟩],
        pc := Function.update s.pc t (.done (Sys.resultOf w c)) }
  | exitTake (t : T) (id : BitVec 64) (c : Command T) (q : CommQueue T)
      (hpc : s.pc t = .exitWait id) (hfind : s.comq.findCompletion id = some (c, q)) :
      Step P s (.caller t) { s with
        comq := q, delivered := s.delivered ++ [⟨t, id, c, .unit⟩],
        pc := Function.update s.pc t .exitDone }
  | exitDone (t : T) (hpc : s.pc t = .exitDone) :
      Step P s (.caller t) { s with
        mainExit := true, pc := Function.update s.pc t (.done .unit) }
  | closeTake (t : T) (id : BitVec 64) (c : Command T) (q : CommQueue T)
      (hpc : s.pc t = .closeWait id) (hfind : s.comq.findCompletion id = some (c, q)) :
      Step P s (.caller t) { s with
        comq := q, delivered := s.delivered ++ [⟨t, id, c, .closed (Sys.closeRetval c)⟩],
        pc := Function.update s.pc t
          (if Sys.closeRetval c = 0 then .delete else .done (.closed (Sys.closeRetval c))) }
  | delete (t : T) (hpc : s.pc t = .delete) :
      Step P s (.caller t) { s with
        deleted := true, pc := Function.update s.pc t (.done (.closed 0)) }
  | finish (t : T) (r : Ret) (hpc : s.pc t = .done r) :
      Step P s (.caller t) { s with
        pc := Function.update s.pc t .idle
        mainMutex := if s.mainMutex = some t then none else s.mainMutex }
  | startBlock (env : Env) (r : Handled) (v : BitVec 64) (th : VeThread) (hpc : s.pseudo = .start)
      (hexec : defaultExceptionHandler P env.events s.thread = .ok r)
      (hstatus : r.status = statusBlockRequested)
      (hcollect : collectReturnValue r.thread = .ok (v, th)) :
      Step P s (.pseudo env) { s with thread := th, pseudo := .test }
  | startFail (env : Env) (r : Handled) (hpc : s.pseudo = .start)
      (hexec : defaultExceptionHandler P env.events s.thread = .ok r)
      (hstatus : r.status ≠ statusBlockRequested) :
      Step P s (.pseudo env) { s with thread := r.thread, pseudo := .startFailed }
  | startExit (env : Env) (hpc : s.pseudo = .startFailed) :
      Step P s (.pseudo env) { s with
        thread := { s.thread with state := .exit }, pseudo := .returned }
  | abort (env : Env) (hpc : s.pseudo = .start ∨ s.pseudo = .run) :
      Step P s (.pseudo env) { s with pseudo := .aborted }
  | testBlocked (env : Env) (hpc : s.pseudo = .test) (h : s.thread.state = .blocked) :
      Step P s (.pseudo env) { s with pseudo := .pop }
  | testReturned (env : Env) (hpc : s.pseudo = .test) (h : s.thread.state ≠ .blocked) :
      Step P s (.pseudo env) { s with pseudo := .returned }
  | pop (env : Env) (c : Command T) (q : CommQueue T) (hpc : s.pseudo = .pop)
      (hpop : s.comq.popRequest = some (c, q)) :
      Step P s (.pseudo env) { s with comq := q, command := some c, pseudo := .run }
  | runClose (env : Env) (c : Command T) (hpc : s.pseudo = .run) (hcmd : s.command = some c)
      (hkind : c.kind = .close) :
      Step P s (.pseudo env) { s with
        thread := { s.thread with state := .exit },
        command := some (c.setResult ⟨0, .ok⟩), ran := s.ran ++ [(c.toTicket, ⟨0, .ok⟩)],
        pseudo := .closeReply }
  | run (env : Env) (c : Command T) (f : Handler) (o : Outcome) (hpc : s.pseudo = .run)
      (hcmd : s.command = some c) (hkind : c.kind = .handler f)
      (hexec : f.exec P env s.thread = .ok o) :
      Step P s (.pseudo env) { s with
        thread := o.thread, command := some (c.setResult o.result),
        ran := s.ran ++ [(c.toTicket, o.result)],
        pseudo := if o.rv ≠ 0 then .failState else .complete }
  | complete (env : Env) (c : Command T) (next : Pseudo) (hpc : Completes s.pseudo next)
      (hcmd : s.command = some c) :
      Step P s (.pseudo env)
        { s with comq := s.comq.pushCompletion c, command := none, pseudo := next }
  | failState (env : Env) (hpc : s.pseudo = .failState) :
      Step P s (.pseudo env) { s with
        thread := { s.thread with state := .exit }, pseudo := .failClose }
  | failClose (env : Env) (hpc : s.pseudo = .failClose) :
      Step P s (.pseudo env)
        { s with comq := s.comq.setRequestStatus .closed, pseudo := .failPush }
  | drainPop (env : Env) (c : Command T) (q : CommQueue T) (hpc : s.pseudo = .drain)
      (hpop : s.comq.popRequest = some (c, q)) :
      Step P s (.pseudo env) { s with
        comq := q, command := some (c.setResult ⟨0, .unfinished⟩),
        dropped := s.dropped ++ [c.toTicket], pseudo := .drainPush }
  | drainEmpty (env : Env) (hpc : s.pseudo = .drain) (hempty : s.comq.request.queue = []) :
      Step P s (.pseudo env) { s with pseudo := .returned }

/-! ## The step function takes no other steps -/

section Cases
variable {P : Platform} {s s' : Sys T}

theorem startCall_cases {t : T} {op : Op} (h : s.startCall t op = some s') :
    Step P s (.start t op) s' := by
  unfold Sys.startCall at h
  split at h
  · rename_i hc
    cases h
    exact .start t op hc.1
  · cases h

theorem peekFind_cases {t : T} {id : BitVec 64} (hpc : s.pc t = .peekFind id)
    (h : s.peekFind t id = some s') : Step P s (.caller t) s' := by
  unfold Sys.peekFind at h
  split at h
  · rename_i hfree
    split at h
    · rename_i hmem
      cases h
      exact .peekLock t id hpc hfree hmem
    · rename_i hmem
      cases h
      exact .move t _ _ hpc (.peekUnknown id hmem)
  · cases h

theorem peekSearch_cases {t : T} {id : BitVec 64} (hpc : s.pc t = .peekSearch id) :
    Step P s (.caller t) (s.peekSearch t id) := by
  unfold Sys.peekSearch
  split
  · rename_i c q hfind
    split
    · rename_i hmem
      exact .peekTake t id c q hpc hfind hmem
    · rename_i hmem
      exact .peekLost t id c q hpc hfind hmem
  · rename_i hfind
    exact .peekNone t id hpc hfind

theorem waitErase_cases {t : T} {id : BitVec 64} {w : Waiter} (hpc : s.pc t = .waitErase id w)
    (h : s.waitErase t id w = some s') : Step P s (.caller t) s' := by
  unfold Sys.waitErase at h
  split at h
  · rename_i hfree
    split at h
    · rename_i hmem
      cases h
      exact .waitErase t id w hpc hfree hmem
    · rename_i hmem
      cases h
      exact .move t _ _ hpc (.waitUnknown id w hmem)
  · cases h

theorem callerStep_cases {t : T} (h : s.callerStep t = some s') : Step P s (.caller t) s' := by
  unfold Sys.callerStep at h
  split at h
  case h_1 => cases h
  case h_2 f k hpc =>
    split at h
    · rename_i hc
      cases h
      exact .move t _ _ hpc (.refused f k hc)
    · rename_i hc
      cases h
      exact .move t _ _ hpc (.tested f k fun he => hc (.inr he))
  case h_3 kind k hpc =>
    cases h
    unfold Sys.issue
    split
    · rename_i hinv
      exact .issueSkip t kind k hpc hinv
    · rename_i hinv
      exact .issue t kind k hpc hinv
  case h_4 id kind k hpc =>
    unfold Sys.insertId at h
    split at h
    · rename_i hfree
      cases h
      exact .insert t id kind k hpc hfree
    · cases h
  case h_5 c k hpc =>
    split at h
    · rename_i hready
      cases h
      exact .move t _ _ hpc (.ready c k hready)
    · rename_i hready
      cases h
      exact .move t _ _ hpc (.rejected c k hready)
  case h_6 c k hpc =>
    cases h
    exact .push t c k hpc
  case h_7 id hpc => exact peekFind_cases hpc h
  case h_8 id hpc =>
    cases h
    exact peekSearch_cases hpc
  case h_9 id w hpc => exact waitErase_cases hpc h
  case h_10 id w hpc =>
    obtain ⟨⟨c, q⟩, hfind, rfl⟩ := Option.map_eq_some_iff.mp h
    exact .waitTake t id w c q hpc hfind
  case h_11 addr hpc =>
    split at h
    · cases h
      exact .move t _ _ hpc (.exitSkipped addr)
    · cases h
      exact .move t _ _ hpc (.exitTested addr)
  case h_12 id hpc =>
    obtain ⟨⟨c, q⟩, hfind, rfl⟩ := Option.map_eq_some_iff.mp h
    exact .exitTake t id c q hpc hfind
  case h_13 hpc =>
    cases h
    exact .exitDone t hpc
  case h_14 hpc =>
    split at h
    · rename_i hexit
      cases h
      exact .move t _ _ hpc (.closeSkipped hexit)
    · rename_i hexit
      cases h
      exact .move t _ _ hpc (.closeTested hexit)
  case h_15 id hpc =>
    obtain ⟨⟨c, q⟩, hfind, rfl⟩ := Option.map_eq_some_iff.mp h
    exact .closeTake t id c q hpc hfind
  case h_16 hpc =>
    cases h
    exact .delete t hpc
  case h_17 r hpc =>
    cases h
    exact .finish t r hpc

theorem startEventLoop_cases {env : Env} (hpc : s.pseudo = .start)
    (h : s.startEventLoop P env = some s') : Step P s (.pseudo env) s' := by
  unfold Sys.startEventLoop at h
  split at h
  · rename_i r hexec
    split at h
    · rename_i hstatus
      split at h
      · rename_i v th hcollect
        cases h
        exact .startBlock env r v th hpc hexec hstatus hcollect
      · cases h
        exact .abort env (.inl hpc)
    · rename_i hstatus
      cases h
      exact .startFail env r hpc hexec hstatus
  · cases h
  · cases h
    exact .abort env (.inl hpc)

theorem runCommand_cases {env : Env} {c : Command T} (hpc : s.pseudo = .run)
    (hcmd : s.command = some c) (h : s.runCommand P env c = some s') :
    Step P s (.pseudo env) s' := by
  unfold Sys.runCommand at h
  split at h
  · rename_i hkind
    cases h
    exact .runClose env c hpc hcmd hkind
  · rename_i f hkind
    split at h
    · rename_i o hexec
      cases h
      exact .run env c f o hpc hcmd hkind hexec
    · cases h
    · cases h
      exact .abort env (.inr hpc)

theorem complete_cases {env : Env} {next : Pseudo} (hpc : Completes s.pseudo next)
    (h : s.complete next = some s') : Step P s (.pseudo env) s' := by
  obtain ⟨c, hcmd, rfl⟩ := Option.map_eq_some_iff.mp h
  exact .complete env c next hpc hcmd

theorem pseudoStep_cases {env : Env} (h : s.pseudoStep P env = some s') :
    Step P s (.pseudo env) s' := by
  unfold Sys.pseudoStep at h
  split at h
  case h_1 hpc => exact startEventLoop_cases hpc h
  case h_2 hpc =>
    cases h
    exact .startExit env hpc
  case h_3 hpc =>
    cases h
    by_cases hblocked : s.thread.state = .blocked
    · rw [if_pos hblocked]
      exact .testBlocked env hpc hblocked
    · rw [if_neg hblocked]
      exact .testReturned env hpc hblocked
  case h_4 hpc =>
    obtain ⟨⟨c, q⟩, hpop, rfl⟩ := Option.map_eq_some_iff.mp h
    exact .pop env c q hpc hpop
  case h_5 hpc =>
    obtain ⟨c, hcmd, hrun⟩ := Option.bind_eq_some_iff.mp h
    exact runCommand_cases hpc hcmd hrun
  case h_6 hpc => exact complete_cases (hpc ▸ .complete) h
  case h_7 hpc =>
    cases h
    exact .failState env hpc
  case h_8 hpc =>
    cases h
    exact .failClose env hpc
  case h_9 hpc => exact complete_cases (hpc ▸ .failPush) h
  case h_10 hpc =>
    split at h
    · rename_i c q hpop
      cases h
      exact .drainPop env c q hpc hpop
    · rename_i hpop
      cases h
      exact .drainEmpty env hpc (CommQueue.popRequest_eq_none.mp hpop)
  case h_11 hpc => exact complete_cases (hpc ▸ .drainPush) h
  case h_12 hpc => exact complete_cases (hpc ▸ .closeReply) h
  case h_13 | h_14 | h_15 => cases h

/-- What a step of the system can do. -/
theorem Sys.step_cases {a : Act T} (h : s.step P a = some s') : Step P s a s' := by
  cases a with
  | start t op => exact startCall_cases h
  | caller t => exact callerStep_cases h
  | pseudo env => exact pseudoStep_cases h

end Cases

/-! ## Frames -/

/-- What the steps of callers leave alone. -/
structure PseudoFrame (s s' : Sys T) : Prop where
  pseudo : s'.pseudo = s.pseudo
  thread : s'.thread = s.thread
  command : s'.command = s.command
  status : s'.comq.request.status = s.comq.request.status

/-- What the steps of the pseudo thread leave alone. -/
structure CallerFrame (s s' : Sys T) : Prop where
  pc : s'.pc = s.pc
  calls : s'.calls = s.calls
  remReqid : s'.remReqid = s.remReqid
  seqNo : s'.seqNo = s.seqNo
  issued : s'.issued = s.issued
  accepted : s'.accepted = s.accepted
  delivered : s'.delivered = s.delivered
  deleted : s'.deleted = s.deleted

section Frames
variable {P : Platform} {s s' : Sys T} {a : Act T}

theorem Step.pseudoFrame (h : Step P s a s') (ha : ∀ env, a ≠ .pseudo env) : PseudoFrame s s' := by
  cases h with
  | peekTake t id c q hpc hfind hmem
  | peekLost t id c q hpc hfind hmem
  | waitTake t id w c q hpc hfind
  | exitTake t id c q hpc hfind
  | closeTake t id c q hpc hfind =>
      obtain ⟨-, hq, -⟩ := CommQueue.findCompletion_eq_some hfind
      exact ⟨rfl, rfl, rfl, congrArg BlockingQueue.status hq⟩
  | _ => first | exact ⟨rfl, rfl, rfl, rfl⟩ | exact absurd rfl (ha _)

theorem Step.callerFrame {env : Env} (h : Step P s (.pseudo env) s') : CallerFrame s s' := by
  cases h <;> exact ⟨rfl, rfl, rfl, rfl, rfl, rfl, rfl, rfl⟩

/-- The steps of others change neither the position of a caller nor the number of its calls. -/
theorem Step.other (h : Step P s a s') {t : T} (hcaller : a ≠ .caller t)
    (hstart : ∀ op, a ≠ .start t op) : s'.pc t = s.pc t ∧ s'.calls t = s.calls t := by
  cases a with
  | pseudo env => exact ⟨congrFun h.callerFrame.pc t, congrFun h.callerFrame.calls t⟩
  | start u op =>
      have hne : t ≠ u := fun heq => hstart op (heq ▸ rfl)
      cases h with
      | start => exact ⟨Function.update_of_ne hne _ _, Function.update_of_ne hne _ _⟩
  | caller u =>
      have hne : t ≠ u := fun heq => hcaller (heq ▸ rfl)
      cases h <;> first | exact ⟨Function.update_of_ne hne _ _, rfl⟩ | exact ⟨rfl, rfl⟩

/-- Callers run no command. -/
theorem Step.ran_of_caller (h : Step P s a s') (ha : ∀ env, a ≠ .pseudo env) :
    s'.ran = s.ran := by
  cases h with
  | _ => first | rfl | exact absurd rfl (ha _)

theorem Step.ran_subset (h : Step P s a s') : s.ran ⊆ s'.ran := by
  cases h with
  | run | runClose => exact List.subset_append_left _ _
  | _ => exact List.Subset.refl _

theorem Step.accepted_subset (h : Step P s a s') : s.accepted ⊆ s'.accepted := by
  cases h with
  | push => exact List.subset_append_left _ _
  | _ => exact List.Subset.refl _

/-- A caller counts its calls when it starts them. -/
theorem Step.calls_of_caller {t : T} (h : Step P s (.caller t) s') : s'.calls = s.calls := by
  cases h <;> rfl

/-- What a step means for the current call of `t`: it is a step of `t`, `t` starts its next call,
    or it is a step of others. -/
theorem Step.call_cases (h : Step P s a s') (t : T) :
    (a = .caller t ∧ s'.calls t = s.calls t) ∨
      (∃ op, a = .start t op ∧ s'.calls t = s.calls t + 1) ∨
      (a ≠ .caller t ∧ (∀ op, a ≠ .start t op) ∧ s'.pc t = s.pc t ∧ s'.calls t = s.calls t) := by
  by_cases hcaller : a = .caller t
  · subst hcaller
    exact .inl ⟨rfl, congrFun h.calls_of_caller t⟩
  · by_cases hstart : ∃ op, a = .start t op
    · obtain ⟨op, rfl⟩ := hstart
      cases h with
      | start => exact .inr (.inl ⟨op, rfl, Function.update_self _ _ _⟩)
    · have hne : ∀ op, a ≠ .start t op := fun op heq => hstart ⟨op, heq⟩
      exact .inr (.inr ⟨hcaller, hne, h.other hcaller hne⟩)

theorem Step.calls_le (h : Step P s a s') (t : T) : s.calls t ≤ s'.calls t := by
  rcases h.call_cases t with ⟨-, hsame⟩ | ⟨op, -, hnext⟩ | ⟨-, -, -, hsame⟩
  · exact Nat.le_of_eq hsame.symm
  · exact hnext ▸ Nat.le_succ _
  · exact Nat.le_of_eq hsame.symm

/-- A command is accepted by being pushed. -/
theorem Step.accepted_cases (h : Step P s a s') {b : Ticket T} (hb : b ∈ s'.accepted) :
    b ∈ s.accepted ∨ ∃ t c k, a = .caller t ∧ s.pc t = .push c k ∧ b = c.toTicket := by
  cases h with
  | push t c k hpc =>
      rcases List.mem_append.mp hb with hold | hnew
      · exact .inl hold
      · exact .inr ⟨t, c, k, rfl, hpc, List.mem_singleton.mp hnew⟩
  | _ => exact .inl hb

/-- What the pseudo thread runs is the command in hand: it accepts the close request, or it runs
    the handler. -/
theorem Step.ran_cases (h : Step P s a s') {x : Ticket T × CmdResult} (hx : x ∈ s'.ran) :
    x ∈ s.ran ∨ ∃ env c, a = .pseudo env ∧ s.pseudo = .run ∧ s.command = some c ∧
      ((c.kind = .close ∧ x = (c.toTicket, ⟨0, .ok⟩)) ∨
        ∃ f o, c.kind = .handler f ∧ f.exec P env s.thread = .ok o ∧ x = (c.toTicket, o.result)) := by
  cases h with
  | runClose env c hpc hcmd hkind =>
      rcases List.mem_append.mp hx with hold | hnew
      · exact .inl hold
      · exact .inr ⟨env, c, rfl, hpc, hcmd, .inl ⟨hkind, List.mem_singleton.mp hnew⟩⟩
  | run env c f o hpc hcmd hkind hexec =>
      rcases List.mem_append.mp hx with hold | hnew
      · exact .inl hold
      · exact .inr ⟨env, c, rfl, hpc, hcmd, .inr ⟨f, o, hkind, hexec, List.mem_singleton.mp hnew⟩⟩
  | _ => exact .inl hx

/-- In this state and environment the pseudo thread runs the command `x.1`, with the result `x.2`:
    the one that the handler of the command sets, or the one that a close request gets. -/
structure Sys.RunsAs (P : Platform) (s : Sys T) (env : Env) (x : Ticket T × CmdResult) : Prop where
  run : s.pseudo = .run
  command : ∃ c, s.command = some c ∧ c.toTicket = x.1
  result : (x.1.kind = .close ∧ x.2 = ⟨0, .ok⟩) ∨
    ∃ f o, x.1.kind = .handler f ∧ f.exec P env s.thread = .ok o ∧ o.result = x.2

/-- What has been run was run in some step of the run. -/
theorem ran_origin {guard : Sys T → Act T → Prop} {s₀ : Sys T} {x : Ticket T × CmdResult}
    (h : Transition.Run (Sys.step P) guard s₀ s) (hx : x ∈ s.ran) :
    x ∈ s₀.ran ∨ ∃ s₁ env s₂, Transition.Run (Sys.step P) guard s₀ s₁ ∧
      guard s₁ (.pseudo env) ∧ s₁.step P (.pseudo env) = some s₂ ∧
      Transition.Run (Sys.step P) guard s₂ s ∧ s₁.RunsAs P env x := by
  induction h with
  | refl => exact .inl hx
  | @tail u u' a hrun hg hst ih =>
      rcases (Sys.step_cases hst).ran_cases hx with hold | ⟨env, c, rfl, hpc, hcmd, hresult⟩
      · rcases ih hold with hfirst | ⟨s₁, env, s₂, hbefore, hg₁, hst₁, hafter, hruns⟩
        · exact .inl hfirst
        · exact .inr ⟨s₁, env, s₂, hbefore, hg₁, hst₁, .tail hafter hg hst, hruns⟩
      · refine .inr ⟨u, env, u', hrun, hg, hst, .refl u', hpc, ?_, ?_⟩
        · rcases hresult with ⟨-, rfl⟩ | ⟨f, o, -, -, rfl⟩ <;> exact ⟨c, hcmd, rfl⟩
        · rcases hresult with ⟨hkind, rfl⟩ | ⟨f, o, hkind, hexec, rfl⟩
          · exact .inl ⟨hkind, rfl⟩
          · exact .inr ⟨f, o, hkind, hexec, rfl⟩

end Frames

end Veo
