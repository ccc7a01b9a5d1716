-- SUMMARY: Destroying the process: the exit command is accepted once and the handle is freed once, whichever threads call exitProc.
import Veo.ThreadContext.Exit

/-!
# Destroying the process

`veo_proc_destroy` calls `exitProc`, which holds `main_mutex` from its test of the main thread's
state to its return. It pushes the exit command to the worker, waits for the completion, and then
cleans up, sets the state of the main thread to EXIT, and frees the VEOS handle; these three are the
step `exitDone` of the caller. Any number of threads may call it.
-/

namespace Veo

open Transition

variable {T : Type}

/-! ## How far a call of `exitProc` is -/

inductive ExitPhase where
  | outside
  /-- Before the test. -/
  | test
  /-- Between the test and the push. -/
  | building
  /-- From the wait for the completion to the end of the clean-up. -/
  | waiting
deriving DecidableEq, Repr

/-- The phase of a call that submits a command of this kind. -/
def Kind.exitPhase (kind : Kind) : ExitPhase := if kind.isExit then .building else .outside

def Pc.exitPhase : Pc T → ExitPhase
  | .exitTest _ => .test
  | .issue kind _ | .insert _ kind _ => kind.exitPhase
  | .load c _ | .push c _ => c.kind.exitPhase
  | .exitWait _ | .exitDone => .waiting
  | _ => .outside

/-- The exit command is submitted by `exitProc` only. -/
def Pc.ExitOnly : Pc T → Prop
  | .test f k => (Kind.handler f).isExit = false ∧ k ≠ .exit
  | .issue kind k | .insert _ kind k => kind.isExit = true ↔ k = .exit
  | .load c k | .push c k => c.kind.isExit = true ↔ k = .exit
  | _ => True

/-- The number of exit commands that were accepted. -/
def Sys.exits (s : Sys T) : Nat := s.accepted.countP (·.kind.isExit)

/-- The changes of the phase that leave the history alone. -/
inductive ExitPhase.Leads (mainExit : Bool) : ExitPhase → ExitPhase → Prop where
  | stay (p : ExitPhase) : Leads mainExit p p
  | skipped : Leads mainExit .test .outside
  | tested (h : mainExit = false) : Leads mainExit .test .building
  | rejected : Leads mainExit .building .waiting

namespace ExitPhase.Leads
variable {mainExit : Bool} {p q : ExitPhase}

theorem of_outside (h : Leads mainExit .outside q) : q = .outside := by
  cases h
  rfl

theorem of_waiting (h : Leads mainExit .waiting q) : q = .waiting := by
  cases h
  rfl

theorem to_building (h : Leads mainExit p .building) :
    p = .building ∨ (p = .test ∧ mainExit = false) := by
  cases h with
  | stay => exact .inl rfl
  | tested halive => exact .inr ⟨rfl, halive⟩

theorem alive (h : Leads mainExit p q) (hq : q = .building ∨ q = .waiting) :
    (p = .building ∨ p = .waiting) ∨ mainExit = false := by
  cases h with
  | stay => exact .inl hq
  | skipped => simp at hq
  | tested halive => exact .inr halive
  | rejected => exact .inl (.inl rfl)

end ExitPhase.Leads

section Phases
variable (k : After) (id : BitVec 64) (op : Op)

@[simp] theorem After.next_exitPhase :
    (k.next id : Pc T).exitPhase = if k = .exit then .waiting else .outside := by
  cases k <;> rfl

@[simp] theorem After.next_exitOnly : (k.next id : Pc T).ExitOnly := by
  cases k <;> trivial

@[simp] theorem Op.start_exitOnly : (op.start : Pc T).ExitOnly := by
  cases op <;> simp [Op.start, Pc.ExitOnly, Kind.isExit]

theorem Op.start_exitPhase : (op.start : Pc T).exitPhase = .outside ∨
    ((op.start : Pc T).exitPhase = .test ∧ op.locks = true) := by
  cases op <;> simp [Op.start, Op.locks, Pc.exitPhase]

end Phases

/-! ## The invariant -/

/-- At most one call of `exitProc` is past its test, and it is the first one. -/
structure Sys.ExitOk (s : Sys T) : Prop where
  only : ∀ t, (s.pc t).ExitOnly
  locked : ∀ t, (s.pc t).exitPhase ≠ .outside → s.mainMutex = some t
  le : s.exits ≤ 1
  building : ∀ t, (s.pc t).exitPhase = .building → s.exits = 0
  alive : ∀ t, (s.pc t).exitPhase = .building ∨ (s.pc t).exitPhase = .waiting → s.mainExit = false
  past : s.exits = 0 ∨ s.mainExit = true ∨ ∃ t, (s.pc t).exitPhase = .waiting

section Step
variable [DecidableEq T] {P : Platform} {s s' : Sys T} {a : Act T} {t : T} {pc' : Pc T}

omit [DecidableEq T] in
theorem Sys.ExitOk.unique (hs : s.ExitOk) {t u : T} (ht : (s.pc t).exitPhase ≠ .outside)
    (hu : (s.pc u).exitPhase ≠ .outside) : t = u :=
  Option.some.inj ((hs.locked t ht).symm.trans (hs.locked u hu))

/-- A step of a caller that leaves the history alone. -/
theorem Sys.ExitOk.update (hs : s.ExitOk) (hpc : s'.pc = Function.update s.pc t pc')
    (hmutex : s'.mainMutex = s.mainMutex) (hexit : s'.mainExit = s.mainExit)
    (hexits : s'.exits = s.exits) (honly : pc'.ExitOnly)
    (hleads : ExitPhase.Leads s.mainExit (s.pc t).exitPhase pc'.exitPhase) : s'.ExitOk := by
  have hself : s'.pc t = pc' := by rw [hpc, Function.update_self]
  have hother (u : T) (hu : u ≠ t) : s'.pc u = s.pc u := by rw [hpc, Function.update_of_ne hu]
  constructor
  case only =>
    intro u
    by_cases hu : u = t
    · rw [hu, hself]
      exact honly
    · rw [hother u hu]
      exact hs.only u
  case locked =>
    intro u hphase
    rw [hmutex]
    by_cases hu : u = t
    · rw [hu, hself] at hphase
      rw [hu]
      refine hs.locked t fun hout => hphase ?_
      rw [hout] at hleads
      exact hleads.of_outside
    · exact hs.locked u (hother u hu ▸ hphase)
  case le => exact hexits ▸ hs.le
  case building =>
    intro u hphase
    rw [hexits]
    by_cases hu : u = t
    · rw [hu, hself] at hphase
      rw [hphase] at hleads
      rcases hleads.to_building with hold | ⟨hold, halive⟩
      · exact hs.building t hold
      · rcases hs.past with hzero | hdead | ⟨v, hv⟩
        · exact hzero
        · cases halive.symm.trans hdead
        · -- nobody else holds `main_mutex`
          have hvt := hs.unique (t := v) (u := t) (by rw [hv]; simp) (by rw [hold]; simp)
          rw [hvt, hold] at hv
          cases hv
    · exact hs.building u (hother u hu ▸ hphase)
  case alive =>
    intro u hphase
    rw [hexit]
    by_cases hu : u = t
    · rw [hu, hself] at hphase
      exact (hleads.alive hphase).elim (hs.alive t) id
    · exact hs.alive u (hother u hu ▸ hphase)
  case past =>
    rw [hexits, hexit]
    refine hs.past.imp_right (Or.imp_right ?_)
    rintro ⟨v, hv⟩
    refine ⟨v, ?_⟩
    by_cases hvt : v = t
    · rw [hvt] at hv ⊢
      rw [hself]
      rw [hv] at hleads
      exact hleads.of_waiting
    · rw [hother v hvt]
      exact hv

/-- The push of a command. -/
theorem Sys.ExitOk.push (hs : s.ExitOk) {c : Command T} {k : After} (hpush : s.pc t = .push c k)
    (hpc : s'.pc = Function.update s.pc t (k.next c.msgid)) (hmutex : s'.mainMutex = s.mainMutex)
    (hexit : s'.mainExit = s.mainExit) (hacc : s'.accepted = s.accepted ++ [c.toTicket]) :
    s'.ExitOk := by
  have honly := hs.only t
  rw [hpush, Pc.ExitOnly] at honly
  have hcount : s'.exits = s.exits + if c.kind.isExit then 1 else 0 := by
    rw [Sys.exits, Sys.exits, hacc, List.countP_append, List.countP_singleton, Command.toTicket]
  cases hkind : c.kind.isExit with
  | false =>
      have hk : k ≠ .exit := fun hk => by simp [hkind, hk] at honly
      refine hs.update hpc hmutex hexit (by simpa [hkind] using hcount) (by simp) ?_
      have hold : (s.pc t).exitPhase = .outside := by simp [hpush, Pc.exitPhase, Kind.exitPhase, hkind]
      rw [hold, After.next_exitPhase, if_neg hk]
      exact .stay _
  | true =>
      have hk : k = .exit := honly.mp hkind
      have hbuilding : (s.pc t).exitPhase = .building := by
        simp [hpush, Pc.exitPhase, Kind.exitPhase, hkind]
      have hself : s'.pc t = .exitWait c.msgid := by rw [hpc, Function.update_self, hk]; rfl
      have hzero := hs.building t hbuilding
      -- the other callers are outside, because `t` holds `main_mutex`
      have hother (u : T) (hu : u ≠ t) : (s'.pc u).exitPhase = .outside := by
        rw [hpc, Function.update_of_ne hu]
        by_contra hne
        exact hu (hs.unique hne (by rw [hbuilding]; simp))
      rw [hkind, hzero, if_pos rfl] at hcount
      constructor
      case only =>
        intro u
        by_cases hu : u = t
        · rw [hu, hself]
          trivial
        · rw [hpc, Function.update_of_ne hu]
          exact hs.only u
      case locked =>
        intro u hphase
        rw [hmutex]
        by_cases hu : u = t
        · exact hu ▸ hs.locked t (by rw [hbuilding]; simp)
        · exact absurd (hother u hu) hphase
      case le => omega
      case building =>
        intro u hphase
        by_cases hu : u = t
        · rw [hu, hself] at hphase
          cases hphase
        · cases (hother u hu).symm.trans hphase
      case alive =>
        intro u hphase
        rw [hexit]
        by_cases hu : u = t
        · exact hs.alive t (.inl hbuilding)
        · rw [hother u hu] at hphase
          simp at hphase
      case past => exact .inr (.inr ⟨t, by rw [hself]; rfl⟩)

/-- The clean-up at the end of `exitProc`. -/
theorem Sys.ExitOk.exitDone (hs : s.ExitOk) (hdone : s.pc t = .exitDone) {r : Ret}
    (hpc : s'.pc = Function.update s.pc t (.done r)) (hexit : s'.mainExit = true)
    (hacc : s'.accepted = s.accepted) : s'.ExitOk := by
  have hwaiting : (s.pc t).exitPhase = .waiting := by rw [hdone]; rfl
  have hout (u : T) : (s'.pc u).exitPhase = .outside := by
    by_cases hu : u = t
    · rw [hpc, hu, Function.update_self]
      rfl
    · rw [hpc, Function.update_of_ne hu]
      by_contra hne
      exact hu (hs.unique hne (by rw [hwaiting]; simp))
  constructor
  case only =>
    intro u
    by_cases hu : u = t
    · rw [hpc, hu, Function.update_self]
      trivial
    · rw [hpc, Function.update_of_ne hu]
      exact hs.only u
  case locked => exact fun u hphase => absurd (hout u) hphase
  case le =>
    rw [Sys.exits, hacc]
    exact hs.le
  case building => exact fun u hphase => by cases (hout u).symm.trans hphase
  case alive => exact fun u hphase => by simp [hout u] at hphase
  case past => exact .inr (.inl hexit)

/-- The start of a call. -/
theorem Sys.ExitOk.start (hs : s.ExitOk) {op : Op} (hidle : s.pc t = .idle)
    (hfree : op.locks = true → s.mainMutex = none)
    (hpc : s'.pc = Function.update s.pc t op.start)
    (hmutex : s'.mainMutex = if op.locks then some t else s.mainMutex)
    (hexit : s'.mainExit = s.mainExit) (hacc : s'.accepted = s.accepted) : s'.ExitOk := by
  have hexits : s'.exits = s.exits := by rw [Sys.exits, Sys.exits, hacc]
  have hold : (s.pc t).exitPhase = .outside := by rw [hidle]; rfl
  cases hlocks : op.locks with
  | false =>
      have hout : (op.start : Pc T).exitPhase = .outside :=
        op.start_exitPhase.resolve_right fun h => by simp [hlocks] at h
      refine hs.update hpc (by simpa [hlocks] using hmutex) hexit hexits (by simp) ?_
      rw [hold, hout]
      exact .stay _
  | true =>
      have hnone := hfree hlocks
      have hself : s'.pc t = op.start := by rw [hpc, Function.update_self]
      have hout (u : T) : (s.pc u).exitPhase = .outside := by
        by_contra hne
        cases hnone.symm.trans (hs.locked u hne)
      have hother (u : T) (hu : u ≠ t) : (s'.pc u).exitPhase = .outside := by
        rw [hpc, Function.update_of_ne hu]
        exact hout u
      have hphase (u : T) : (s'.pc u).exitPhase = .outside ∨ (s'.pc u).exitPhase = .test := by
        by_cases hu : u = t
        · rw [hu, hself]
          exact op.start_exitPhase.imp_right And.left
        · exact .inl (hother u hu)
      constructor
      case only =>
        intro u
        by_cases hu : u = t
        · rw [hu, hself]
          exact op.start_exitOnly
        · rw [hpc, Function.update_of_ne hu]
          exact hs.only u
      case locked =>
        intro u hne
        by_cases hu : u = t
        · rw [hmutex, hu, hlocks]
          rfl
        · exact absurd (hother u hu) hne
      case le => exact hexits ▸ hs.le
      case building =>
        intro u hbuilding
        rcases hphase u with h | h <;> cases h.symm.trans hbuilding
      case alive =>
        intro u hpast
        rcases hphase u with h | h <;> simp [h] at hpast
      case past =>
        rw [hexits, hexit]
        refine hs.past.imp_right (Or.imp_right ?_)
        rintro ⟨v, hv⟩
        cases (hout v).symm.trans hv

omit [DecidableEq T] in
theorem Moves.exitLeads {pc : Pc T} (h : Moves s pc pc') (honly : pc.ExitOnly)
    (htest : ∀ addr, pc = .exitTest addr → pc'.exitPhase = .building → s.mainExit = false) :
    pc'.ExitOnly ∧ ExitPhase.Leads s.mainExit pc.exitPhase pc'.exitPhase := by
  cases h with
  | refused f k =>
      refine ⟨After.next_exitOnly k _, ?_⟩
      rw [After.next_exitPhase, if_neg honly.2]
      exact .stay _
  | tested f k =>
      obtain ⟨hkind, hk⟩ := honly
      refine ⟨⟨fun h => absurd (hkind.symm.trans h) (by simp), fun h => absurd h hk⟩, ?_⟩
      rw [Pc.exitPhase, Kind.exitPhase, hkind]
      exact .stay _
  | ready c k => exact ⟨honly, .stay _⟩
  | rejected c k =>
      refine ⟨After.next_exitOnly k _, ?_⟩
      rw [After.next_exitPhase, Pc.exitPhase, Kind.exitPhase]
      by_cases hk : k = .exit
      · rw [if_pos hk, if_pos (honly.mpr hk)]
        exact .rejected
      · rw [if_neg hk, if_neg (mt honly.mp hk)]
        exact .stay _
  | exitSkipped addr => exact ⟨trivial, .skipped⟩
  | exitTested addr => exact ⟨by simp [Pc.ExitOnly, Kind.isExit], .tested (htest addr rfl rfl)⟩
  | closeTested => exact ⟨by simp [Pc.ExitOnly, Kind.isExit], .stay _⟩
  | peekUnknown | waitUnknown | closeSkipped => exact ⟨trivial, .stay _⟩

/-- The return of a call. -/
theorem Sys.ExitOk.finish (hs : s.ExitOk) {r : Ret} (hdone : s.pc t = .done r)
    (hpc : s'.pc = Function.update s.pc t .idle)
    (hmutex : s'.mainMutex = if s.mainMutex = some t then none else s.mainMutex)
    (hexit : s'.mainExit = s.mainExit) (hacc : s'.accepted = s.accepted) : s'.ExitOk := by
  have hold : (s.pc t).exitPhase = .outside := by rw [hdone]; rfl
  have hexits : s'.exits = s.exits := by rw [Sys.exits, Sys.exits, hacc]
  let held : Sys T := { s' with mainMutex := s.mainMutex }
  have hkeep : held.ExitOk := hs.update hpc rfl hexit hexits trivial (hold ▸ .stay _)
  refine ⟨hkeep.only, fun u hne => ?_, hkeep.le, hkeep.building, hkeep.alive, hkeep.past⟩
  -- the mutex of another caller is not released
  have hu := hkeep.locked u hne
  have hut : u ≠ t := by
    rintro rfl
    rw [hpc, Function.update_self] at hne
    exact hne rfl
  have hmine : s.mainMutex ≠ some t := fun h => hut (Option.some.inj (hu.symm.trans h))
  rw [hmutex, if_neg hmine]
  exact hu

omit [DecidableEq T] in
theorem Sys.ExitOk.congr (hs : s.ExitOk) (hpc : s'.pc = s.pc) (hmutex : s'.mainMutex = s.mainMutex)
    (hexit : s'.mainExit = s.mainExit) (hacc : s'.accepted = s.accepted) : s'.ExitOk := by
  have hexits : s'.exits = s.exits := by rw [Sys.exits, Sys.exits, hacc]
  constructor
  case only => rw [hpc]; exact hs.only
  case locked => rw [hpc, hmutex]; exact hs.locked
  case le => rw [hexits]; exact hs.le
  case building => rw [hpc, hexits]; exact hs.building
  case alive => rw [hpc, hexit]; exact hs.alive
  case past => rw [hpc, hexits, hexit]; exact hs.past

theorem Sys.step_start {op : Op} (h : s.step P (.start t op) = some s') (hlocks : op.locks = true) :
    s.mainMutex = none := by
  simp only [step, startCall] at h
  split at h
  · rename_i hc
    exact hc.2 hlocks
  · cases h

/-- A caller that finds the main thread in EXIT returns. -/
theorem Sys.step_exitTest {addr : BitVec 64} (h : s.step P (.caller t) = some s')
    (hpc : s.pc t = .exitTest addr) (hexit : s.mainExit = true) : s'.pc t = .done .unit := by
  simp only [step, callerStep, hpc, hexit, or_true, if_true] at h
  cases h
  exact Function.update_self _ _ _

theorem Sys.ExitOk.step (hs : s.ExitOk) (h : s.step P a = some s') : s'.ExitOk := by
  have honly := hs.only
  cases Sys.step_cases h with
  | start t op hpc => exact hs.start hpc (Sys.step_start h) rfl rfl rfl rfl
  | move t pc pc' hpc hmove =>
      have hleads := hmove.exitLeads (hpc ▸ hs.only t) fun addr haddr hbuilding => by
        by_contra hexit
        have hdone := Sys.step_exitTest h (hpc.trans haddr) (by simpa using hexit)
        simp only [Function.update_self] at hdone
        rw [hdone] at hbuilding
        cases hbuilding
      exact hs.update rfl rfl rfl rfl hleads.1 (hpc ▸ hleads.2)
  | issue t kind k hpc =>
      have hk := honly t
      rw [hpc] at hk
      exact hs.update rfl rfl rfl rfl hk (hpc ▸ .stay _)
  | insert t id kind k hpc =>
      have hk := honly t
      rw [hpc] at hk
      exact hs.update rfl rfl rfl rfl hk (hpc ▸ .stay _)
  | push t c k hpc => exact hs.push hpc rfl rfl rfl rfl
  | exitTake t id c q hpc => exact hs.update rfl rfl rfl rfl trivial (hpc ▸ .stay _)
  | exitDone t hpc => exact hs.exitDone hpc rfl rfl rfl
  | finish t r hpc => exact hs.finish hpc rfl rfl rfl rfl
  | closeTake t id c q hpc =>
      refine hs.update rfl rfl rfl rfl ?_ ?_
      · split <;> trivial
      · rw [hpc]
        split <;> exact .stay _
  | peekLock t id hpc | peekNone t id hpc | peekTake t id c q hpc | peekLost t id c q hpc
  | waitErase t id w hpc | waitTake t id w c q hpc | delete t hpc =>
      exact hs.update rfl rfl rfl rfl trivial (hpc ▸ .stay _)
  | _ => exact hs.congr rfl rfl rfl rfl

theorem Reachable.exitOk (h : Reachable P s) : s.ExitOk := by
  obtain ⟨v, hrun⟩ := h
  refine hrun.invariant (I := Sys.ExitOk) (fun u a u' hu _ hst => hu.step hst) ?_
  exact ⟨fun _ => trivial, fun t hphase => absurd rfl hphase, Nat.zero_le _, fun _ _ => rfl,
    fun _ _ => rfl, .inl rfl⟩

/-! ## Runs -/

/-- After the clean-up no exit command is accepted any more. -/
theorem Sys.ExitOk.dead (hs : s.ExitOk) (hdead : s.mainExit = true) (h : s.step P a = some s') :
    s'.mainExit = true ∧ s'.exits = s.exits := by
  cases Sys.step_cases h with
  | push t c k hpc =>
      refine ⟨hdead, ?_⟩
      have hkind : c.kind.isExit = false := by
        by_contra hkind
        have hbuilding : (s.pc t).exitPhase = .building := by
          simpa [hpc, Pc.exitPhase, Kind.exitPhase] using hkind
        cases (hs.alive t (.inl hbuilding)).symm.trans hdead
      simp [Sys.exits, List.countP_append, hkind]
  | exitDone t hpc => exact ⟨rfl, rfl⟩
  | _ => exact ⟨hdead, rfl⟩

/-- The step cleans up and frees the handle. -/
def Sys.cleansUp (s : Sys T) : Act T → Bool
  | .caller t => match s.pc t with
    | .exitDone => true
    | _ => false
  | .start _ _ | .pseudo _ => false

/-- How many steps of a run clean up; the run ends where a step is not enabled. -/
def Sys.cleanUps (P : Platform) (s : Sys T) : List (Act T) → Nat
  | [] => 0
  | a :: as =>
    match s.step P a with
    | some s' => (if s.cleansUp a then 1 else 0) + s'.cleanUps P as
    | none => 0

omit [DecidableEq T] in
theorem Sys.cleansUp_eq_true (h : s.cleansUp a = true) : ∃ t, a = .caller t ∧ s.pc t = .exitDone := by
  cases a with
  | caller t =>
      refine ⟨t, rfl, ?_⟩
      simp only [cleansUp] at h
      split at h
      · assumption
      · cases h
  | start t op | pseudo env => cases h

theorem Sys.ExitOk.cleanUps_le (hs : s.ExitOk) (as : List (Act T)) :
    s.cleanUps P as ≤ if s.mainExit then 0 else 1 := by
  induction as generalizing s with
  | nil => exact Nat.zero_le _
  | cons a as ih =>
      rw [Sys.cleanUps]
      cases hstep : s.step P a with
      | none => exact Nat.zero_le _
      | some s' =>
          have hrest := ih (hs.step hstep)
          cases hclean : s.cleansUp a with
          | true =>
              obtain ⟨t, rfl, hpc⟩ := Sys.cleansUp_eq_true hclean
              have halive := hs.alive t (.inr (by rw [hpc]; rfl))
              have hdead : s'.mainExit = true := by
                simp only [Sys.step, Sys.callerStep, hpc] at hstep
                cases hstep
                rfl
              simpa [halive, hdead] using hrest
          | false =>
              cases hexit : s.mainExit with
              | true => simpa [(hs.dead hexit hstep).1] using hrest
              | false =>
                  have hle : (if s'.mainExit = true then 0 else 1) ≤ 1 := by split <;> omega
                  simpa using hrest.trans hle

/-- Whichever threads call `exitProc` in whatever order: one call at a time is between its test
    and its return, at most one exit command is ever accepted, every run cleans up and frees the
    handle at most once, and not at all after the main thread is in EXIT; from then on no exit
    command is accepted either. -/
theorem exit_once (h : Reachable P s) :
    (∀ t u, (s.pc t).exitPhase ≠ .outside → (s.pc u).exitPhase ≠ .outside → t = u) ∧
    s.exits ≤ 1 ∧ (∀ as, s.cleanUps P as ≤ if s.mainExit then 0 else 1) ∧
    ∀ s', Reaches (Sys.step P) s s' → s.mainExit = true →
      s'.mainExit = true ∧ s'.exits = s.exits := by
  have hok := h.exitOk
  refine ⟨fun t u ht hu => hok.unique ht hu, hok.le, hok.cleanUps_le, fun s' hrun hdead => ?_⟩
  have hinv : s'.ExitOk ∧ s'.mainExit = true ∧ s'.exits = s.exits := by
    refine hrun.invariant (I := fun u : Sys T => u.ExitOk ∧ u.mainExit = true ∧
      u.exits = s.exits) ?_ ⟨hok, hdead, rfl⟩
    rintro u a u' ⟨hu, hexit, hcount⟩ - hstep
    obtain ⟨hexit', hcount'⟩ := hu.dead hexit hstep
    exact ⟨hu.step hstep, hexit', hcount'.trans hcount⟩
  exact hinv.2

end Step

/-- Two threads destroy the process, one after the other. -/
def destroyRun : List (Act Bool) :=
  let start := Env.plain [] [.raised (.blockRequest 0 0x8000)]
  let exit := Env.plain [] [.raised (.monitorCall 231 fun _ => 0)]
  [.pseudo start, .pseudo start, .start true (.exitProc 1)] ++
  List.replicate 5 (.caller true) ++ List.replicate 3 (.pseudo exit) ++
  List.replicate 3 (.caller true) ++ [.start false (.exitProc 1), .caller false, .caller false]

theorem exit_once_two :
    ∃ s : Sys Bool, Reachable linuxPlatform s ∧ s.mainExit = true ∧ s.exits = 1 ∧
      (Sys.init newThread).cleanUps linuxPlatform destroyRun = 1 ∧
      ∀ as, s.cleanUps linuxPlatform as = 0 := by
  obtain ⟨s, hreach, hs⟩ := exists_reaches (Sys.step linuxPlatform) (Sys.init newThread) destroyRun
    (fun s => decide (s.mainExit = true ∧ s.exits = 1)) (by decide +kernel)
  obtain ⟨hexit, hcount⟩ := of_decide_eq_true hs
  obtain ⟨-, -, hclean, -⟩ := exit_once ⟨newThread, hreach⟩
  refine ⟨s, ⟨newThread, hreach⟩, hexit, hcount, by decide +kernel, fun as => ?_⟩
  simpa [hexit] using hclean as

end Veo
