-- SUMMARY: Monitors: an object behind a mutex and a condition variable, its atomic meaning, wake-ups and termination.
import Veo.Lib.Transition
import Mathlib.Algebra.BigOperators.Group.Finset.Basic
import Mathlib.Algebra.Order.BigOperators.Group.Finset
import Mathlib.Data.Fintype.BigOperators
import Mathlib.Tactic.Linarith

/-!
# Monitors

The operations of an object are made under a mutex. An operation that has to wait sleeps on
the condition variable, which releases the mutex, and is tried again after a wake-up. Some
operations wake all sleeping threads up; a thread may also wake up for no reason. What an operation
does under the mutex is one step: the theorems are about the waiting and the wake-ups around it,
and that the steps under the mutex are exclusive is `Locked`.

The history of a monitor has an event for each call, each return, and each moment at which
an operation took effect.
-/

/-- What a monitor protects: the operations as they are when nobody interferes. -/
structure Monitor.Object (S O R : Type) where
  /-- The result and the new state; undefined if the operation has to wait. -/
  apply : O → S → Option (R × S)
  /-- The operations that call `notify_all`. -/
  notifies : O → Bool

namespace Monitor

/-- Where a thread is. -/
inductive Pc (O R : Type) where
  | idle
  /-- Before the mutex is locked. -/
  | lock (o : O)
  /-- The mutex is locked. -/
  | body (o : O)
  /-- The operation took effect; before `notify_all`. -/
  | notify (r : R)
  /-- The operation has to wait; before the condition variable's `wait`. -/
  | wait (o : O)
  /-- In the condition variable's `wait`, with the mutex released. -/
  | asleep (o : O)
  /-- Woken up; the mutex is to be locked again. -/
  | awake (o : O)
  /-- Back from `wait`, with the mutex; the loop will unlock and lock it. -/
  | again (o : O)
  /-- Before the mutex is unlocked for good. -/
  | unlock (r : R)
  /-- Before the call returns. -/
  | done (r : R)
deriving DecidableEq

inductive Event (T O R : Type) where
  | call (t : T) (o : O)
  /-- The operation took effect. -/
  | commit (t : T) (o : O) (r : R)
  | ret (t : T) (r : R)
deriving DecidableEq

end Monitor

structure Monitor (T S O R : Type) where
  data : S
  owner : Option T
  pc : T → Monitor.Pc O R
  hist : List (Monitor.Event T O R)

namespace Monitor

variable {T S O R : Type}

/-- A monitor that no thread uses. -/
def init (data : S) : Monitor T S O R := ⟨data, none, fun _ => .idle, []⟩

/-- Calls are made at any time; a thread takes the next step of its call; a sleeping thread
    wakes up for no reason. -/
inductive Act (T O : Type) where
  | call (t : T) (o : O)
  | step (t : T)
  | spurious (t : T)

/-- The thread holds the mutex. -/
def Pc.holds : Pc O R → Bool
  | .body _ | .notify _ | .wait _ | .again _ | .unlock _ => true
  | _ => false

/-- The effect of a wake-up on a thread. -/
def Pc.wakeUp : Pc O R → Pc O R
  | .asleep o => .awake o
  | pc => pc

section Step
variable [DecidableEq T]

/-- The thread goes on at `pc`. -/
def setPc (m : Monitor T S O R) (t : T) (pc : Pc O R) : Monitor T S O R :=
  { m with pc := fun u => if u = t then pc else m.pc u }

/-- The next step of a thread's call, undefined if it blocks. -/
def threadStep (ob : Object S O R) (m : Monitor T S O R) (t : T) : Option (Monitor T S O R) :=
  match m.pc t with
  | .idle => none
  | .lock o => if m.owner.isNone then some { m.setPc t (.body o) with owner := some t } else none
  | .body o =>
    match ob.apply o m.data with
    | some (r, data) =>
      some { m.setPc t (if ob.notifies o then .notify r else .unlock r) with
        data := data, hist := m.hist ++ [.commit t o r] }
    | none => some (m.setPc t (.wait o))
  | .notify r =>
    some { m with pc := fun u => if u = t then .unlock r else (m.pc u).wakeUp }
  | .wait o => some { m.setPc t (.asleep o) with owner := none }
  | .asleep _ => none
  | .awake o => if m.owner.isNone then some { m.setPc t (.again o) with owner := some t } else none
  | .again o => some { m.setPc t (.lock o) with owner := none }
  | .unlock r => some { m.setPc t (.done r) with owner := none }
  | .done r => some { m.setPc t .idle with hist := m.hist ++ [.ret t r] }

def step (ob : Object S O R) (m : Monitor T S O R) : Act T O → Option (Monitor T S O R)
  | .call t o =>
    match m.pc t with
    | .idle => some { m.setPc t (.lock o) with hist := m.hist ++ [.call t o] }
    | _ => none
  | .step t => m.threadStep ob t
  | .spurious t =>
    match m.pc t with
    | .asleep o => some (m.setPc t (.awake o))
    | _ => none

end Step

/-! ## What a step does -/

section Step
variable [DecidableEq T]

inductive Step (ob : Object S O R) (m : Monitor T S O R) : Act T O → Monitor T S O R → Prop where
  | call {t : T} {o : O} (hpc : m.pc t = .idle) :
      Step ob m (.call t o) { m.setPc t (.lock o) with hist := m.hist ++ [.call t o] }
  | acquire {t : T} {o : O} (hpc : m.pc t = .lock o) (hfree : m.owner = none) :
      Step ob m (.step t) { m.setPc t (.body o) with owner := some t }
  | commit {t : T} {o : O} {r : R} {data : S} (hpc : m.pc t = .body o)
      (hop : ob.apply o m.data = some (r, data)) :
      Step ob m (.step t) { m.setPc t (if ob.notifies o then .notify r else .unlock r) with
        data := data, hist := m.hist ++ [.commit t o r] }
  | block {t : T} {o : O} (hpc : m.pc t = .body o) (hop : ob.apply o m.data = none) :
      Step ob m (.step t) (m.setPc t (.wait o))
  | notify {t : T} {r : R} (hpc : m.pc t = .notify r) :
      Step ob m (.step t) { m with pc := fun u => if u = t then .unlock r else (m.pc u).wakeUp }
  | sleep {t : T} {o : O} (hpc : m.pc t = .wait o) :
      Step ob m (.step t) { m.setPc t (.asleep o) with owner := none }
  | reacquire {t : T} {o : O} (hpc : m.pc t = .awake o) (hfree : m.owner = none) :
      Step ob m (.step t) { m.setPc t (.again o) with owner := some t }
  | again {t : T} {o : O} (hpc : m.pc t = .again o) :
      Step ob m (.step t) { m.setPc t (.lock o) with owner := none }
  | release {t : T} {r : R} (hpc : m.pc t = .unlock r) :
      Step ob m (.step t) { m.setPc t (.done r) with owner := none }
  | ret {t : T} {r : R} (hpc : m.pc t = .done r) :
      Step ob m (.step t) { m.setPc t .idle with hist := m.hist ++ [.ret t r] }
  | spurious {t : T} {o : O} (hpc : m.pc t = .asleep o) :
      Step ob m (.spurious t) (m.setPc t (.awake o))

theorem threadStep_cases {ob : Object S O R} {m m' : Monitor T S O R} {t : T}
    (h : m.threadStep ob t = some m') : Step ob m (.step t) m' := by
  unfold threadStep at h
  split at h
  · cases h
  · rename_i o hpc
    split at h
    · rename_i hfree
      cases h
      exact .acquire hpc (Option.isNone_iff_eq_none.mp hfree)
    · cases h
  · rename_i o hpc
    split at h
    · rename_i r data hop
      cases h
      exact .commit hpc hop
    · rename_i hop
      cases h
      exact .block hpc hop
  · rename_i r hpc
    cases h
    exact .notify hpc
  · rename_i o hpc
    cases h
    exact .sleep hpc
  · cases h
  · rename_i o hpc
    split at h
    · rename_i hfree
      cases h
      exact .reacquire hpc (Option.isNone_iff_eq_none.mp hfree)
    · cases h
  · rename_i o hpc
    cases h
    exact .again hpc
  · rename_i r hpc
    cases h
    exact .release hpc
  · rename_i r hpc
    cases h
    exact .ret hpc

theorem step_cases {ob : Object S O R} {m m' : Monitor T S O R} {a : Act T O}
    (h : m.step ob a = some m') : Step ob m a m' := by
  cases a with
  | call t o =>
      simp only [step] at h
      split at h
      · rename_i hpc
        cases h
        exact .call hpc
      · cases h
  | step t => exact threadStep_cases h
  | spurious t =>
      simp only [step] at h
      split at h
      · rename_i o hpc
        cases h
        exact .spurious hpc
      · cases h

@[simp, grind =] theorem setPc_pc (m : Monitor T S O R) (t u : T) (pc : Pc O R) :
    (m.setPc t pc).pc u = if u = t then pc else m.pc u := rfl
@[simp, grind =] theorem setPc_data (m : Monitor T S O R) (t : T) (pc : Pc O R) :
    (m.setPc t pc).data = m.data := rfl
@[simp, grind =] theorem setPc_owner (m : Monitor T S O R) (t : T) (pc : Pc O R) :
    (m.setPc t pc).owner = m.owner := rfl
@[simp, grind =] theorem setPc_hist (m : Monitor T S O R) (t : T) (pc : Pc O R) :
    (m.setPc t pc).hist = m.hist := rfl

end Step

@[simp, grind =] theorem Pc.wakeUp_holds (pc : Pc O R) : pc.wakeUp.holds = pc.holds := by
  cases pc <;> rfl

/-! ## Mutual exclusion -/

/-- The mutex is held by the thread that is between its lock and its unlock. -/
def Locked (m : Monitor T S O R) : Prop := ∀ t, (m.pc t).holds = true ↔ m.owner = some t

theorem init_locked (data : S) : (init data : Monitor T S O R).Locked := by
  intro t
  simp [init, Pc.holds]

theorem Step.locked [DecidableEq T] {ob : Object S O R} {m m' : Monitor T S O R} {a : Act T O}
    (h : Step ob m a m') (hm : m.Locked) : m'.Locked := by
  intro u
  have hu := hm u
  -- The steps that keep the mutex, those that lock it, and those that unlock it.
  cases h with
  | @call t o hpc | @spurious t o hpc | @ret t r hpc | @block t o hpc hop =>
      by_cases hut : u = t
      · subst hut
        simpa [hpc, Pc.holds] using hu
      · simpa [hut] using hu
  | @commit t o r data hpc hop =>
      by_cases hut : u = t
      · subst hut
        cases ob.notifies o <;> simpa [hpc, Pc.holds] using hu
      · simpa [hut] using hu
  | @notify t r hpc =>
      by_cases hut : u = t
      · subst hut
        simpa [hpc, Pc.holds] using hu
      · simpa [hut] using hu
  | @acquire t o hpc hfree | @reacquire t o hpc hfree =>
      by_cases hut : u = t
      · simp [hut, Pc.holds]
      · simpa [hut, Ne.symm hut, hfree] using hu
  | @sleep t o hpc | @again t o hpc | @release t r hpc =>
      have howner : m.owner = some t := (hm t).mp (by rw [hpc]; rfl)
      by_cases hut : u = t
      · simp [hut, Pc.holds]
      · simpa [hut, Ne.symm hut, howner] using hu

/-! ## The atomic meaning -/

/-- The operations that took effect, in this order, lead from `d` to `d'`, each with its
    result. -/
inductive Legal (ob : Object S O R) (d : S) : List (Event T O R) → S → Prop where
  | nil : Legal ob d [] d
  | call {h d'} (t : T) (o : O) : Legal ob d h d' → Legal ob d (h ++ [.call t o]) d'
  | ret {h d'} (t : T) (r : R) : Legal ob d h d' → Legal ob d (h ++ [.ret t r]) d'
  | commit {h d' d''} (t : T) {o : O} {r : R} : Legal ob d h d' → ob.apply o d' = some (r, d'') →
      Legal ob d (h ++ [.commit t o r]) d''

/-- How far a thread's last call is. -/
inductive Phase (O R : Type) where
  | out
  | called (o : O)
  | committed (r : R)

def Event.thread : Event T O R → T
  | .call t _ | .commit t _ _ | .ret t _ => t

/-- In the history, each call of `t` takes effect once, after the call and before the
    return, and the return has the result of that effect. -/
inductive Rounds (t : T) : List (Event T O R) → Phase O R → Prop where
  | nil : Rounds t [] .out
  | call {h} (o : O) : Rounds t h .out → Rounds t (h ++ [.call t o]) (.called o)
  | commit {h o} (r : R) : Rounds t h (.called o) → Rounds t (h ++ [.commit t o r]) (.committed r)
  | ret {h r} : Rounds t h (.committed r) → Rounds t (h ++ [.ret t r]) .out
  | other {h p} {e : Event T O R} : e.thread ≠ t → Rounds t h p → Rounds t (h ++ [e]) p

/-- The phase of a thread's call. -/
def Pc.phase : Pc O R → Phase O R
  | .idle => .out
  | .lock o | .body o | .wait o | .asleep o | .awake o | .again o => .called o
  | .notify r | .unlock r | .done r => .committed r

/-- The commits in the history lead to the object's state, and every thread is as far as the
    history says. -/
structure Linearized (ob : Object S O R) (d : S) (m : Monitor T S O R) : Prop where
  legal : Legal ob d m.hist m.data
  rounds : ∀ t, Rounds t m.hist (m.pc t).phase

theorem init_linearized (ob : Object S O R) (d : S) :
    Linearized ob d (init d : Monitor T S O R) where
  legal := .nil
  rounds := fun _ => .nil

@[simp, grind =] theorem Pc.wakeUp_phase (pc : Pc O R) : pc.wakeUp.phase = pc.phase := by
  cases pc <;> rfl

/-- A thread that moves without an event keeps the phase of its call. -/
theorem Linearized.of_phase {ob : Object S O R} {d : S} {m m' : Monitor T S O R}
    (hm : Linearized ob d m) (hdata : m'.data = m.data) (hhist : m'.hist = m.hist)
    (hphase : ∀ t, (m'.pc t).phase = (m.pc t).phase) : Linearized ob d m' where
  legal := by
    rw [hdata, hhist]
    exact hm.legal
  rounds := fun t => by
    rw [hhist, hphase t]
    exact hm.rounds t

/-- An event of a thread is appended to the history, and the phase of the others stays. -/
theorem Rounds.append {m m' : Monitor T S O R} {e : Event T O R}
    (hm : ∀ t, Rounds t m.hist (m.pc t).phase) (hhist : m'.hist = m.hist ++ [e])
    (hpc : ∀ u, u ≠ e.thread → m'.pc u = m.pc u)
    (hself : Rounds e.thread (m.hist ++ [e]) (m'.pc e.thread).phase) (u : T) :
    Rounds u m'.hist (m'.pc u).phase := by
  rw [hhist]
  by_cases hu : u = e.thread
  · rw [hu]
    exact hself
  · rw [hpc u hu]
    exact .other (Ne.symm hu) (hm u)

theorem Step.linearized [DecidableEq T] {ob : Object S O R} {d : S} {m m' : Monitor T S O R}
    {a : Act T O} (h : Step ob m a m') (hm : Linearized ob d m) : Linearized ob d m' := by
  cases h with
  | @call t o hpc =>
      refine ⟨.call t o hm.legal, Rounds.append hm.rounds rfl (fun u hu => if_neg hu) ?_⟩
      have hout := hm.rounds t
      rw [hpc] at hout
      simpa [Event.thread, Pc.phase] using Rounds.call o hout
  | @commit t o r data hpc hop =>
      refine ⟨.commit t hm.legal hop, Rounds.append hm.rounds rfl (fun u hu => if_neg hu) ?_⟩
      have hcalled := hm.rounds t
      rw [hpc] at hcalled
      cases hn : ob.notifies o <;> simpa [Event.thread, Pc.phase] using Rounds.commit r hcalled
  | @ret t r hpc =>
      refine ⟨.ret t r hm.legal, Rounds.append hm.rounds rfl (fun u hu => if_neg hu) ?_⟩
      have hdone := hm.rounds t
      rw [hpc] at hdone
      simpa [Event.thread, Pc.phase] using Rounds.ret hdone
  | @notify t r hpc =>
      refine hm.of_phase rfl rfl fun u => ?_
      by_cases hu : u = t
      · simp [hu, hpc, Pc.phase]
      · simp [hu]
  | @acquire t o hpc | @block t o hpc | @sleep t o hpc | @reacquire t o hpc | @again t o hpc
  | @release t r hpc | @spurious t o hpc =>
      refine hm.of_phase rfl rfl fun u => ?_
      by_cases hu : u = t
      · simp [hu, hpc, Pc.phase]
      · simp [hu]

/-! ## Wake-ups -/

/-- An operation that does not wake the sleeping threads up enables no operation that has to
    wait. -/
def Object.Quiet (ob : Object S O R) : Prop :=
  ∀ o d r d', ob.apply o d = some (r, d') → ob.notifies o = false →
    ∀ o', ob.apply o' d = none → ob.apply o' d' = none

/-- A thread is about to wake the sleeping ones up. -/
def Notifying (m : Monitor T S O R) : Prop := ∃ t r, m.pc t = .notify r

/-- A thread sleeps only while its operation has to wait, or until the wake-up that is due. -/
structure Alert (ob : Object S O R) (m : Monitor T S O R) : Prop where
  locked : m.Locked
  wait : ∀ t o, m.pc t = .wait o → ob.apply o m.data = none
  asleep : ∀ t o, m.pc t = .asleep o → ob.apply o m.data = none ∨ m.Notifying

theorem init_alert (ob : Object S O R) (d : S) : (init d : Monitor T S O R).Alert ob where
  locked := init_locked d
  wait := fun _ _ h => by cases h
  asleep := fun _ _ h => by cases h

/-- At most one thread is between its lock and its unlock. -/
theorem Locked.unique {m : Monitor T S O R} (hm : m.Locked) {t u : T}
    (ht : (m.pc t).holds = true) (hu : (m.pc u).holds = true) : t = u := by
  have h := ((hm t).mp ht).symm.trans ((hm u).mp hu)
  exact Option.some.inj h

/-- The thread with the mutex is the only one that can be about to wake others up. -/
theorem Locked.not_notifying {m : Monitor T S O R} (hm : m.Locked) {t : T}
    (ht : (m.pc t).holds = true) (hpc : ∀ r, m.pc t ≠ .notify r) : ¬ m.Notifying := by
  rintro ⟨u, r, hu⟩
  have htu := hm.unique ht (by rw [hu]; rfl)
  exact hpc r (htu ▸ hu)

section Step
variable [DecidableEq T] {ob : Object S O R} {m m' : Monitor T S O R} {t : T}

/-- A thread moves to a place where it does not wait, and the object stays. -/
theorem Alert.setPc (hm : m.Alert ob) (hlock : m'.Locked) (hdata : m'.data = m.data) {pc : Pc O R}
    (hpc : m'.pc = (m.setPc t pc).pc) (hwait : ∀ o, pc ≠ .wait o) (hsleep : ∀ o, pc ≠ .asleep o)
    (hkeep : ∀ r, m.pc t ≠ .notify r) : m'.Alert ob where
  locked := hlock
  wait := fun u o hu => by
    rw [hpc, setPc_pc] at hu
    split at hu
    · exact absurd hu (hwait o)
    · rw [hdata]
      exact hm.wait u o hu
  asleep := fun u o hu => by
    rw [hpc, setPc_pc] at hu
    split at hu
    · exact absurd hu (hsleep o)
    · rw [hdata]
      rcases hm.asleep u o hu with hblocked | ⟨v, r, hv⟩
      · exact .inl hblocked
      · refine .inr ⟨v, r, ?_⟩
        have hvt : v ≠ t := fun h => hkeep r (h ▸ hv)
        rw [hpc, setPc_pc, if_neg hvt, hv]

theorem Step.alert {a : Act T O} (hob : ob.Quiet) (h : Step ob m a m') (hm : m.Alert ob) :
    m'.Alert ob := by
  have hlock := h.locked hm.locked
  cases h with
  | @call t o hpc | @acquire t o hpc hfree | @reacquire t o hpc hfree | @again t o hpc
  | @release t r hpc | @ret t r hpc | @spurious t o hpc =>
      exact hm.setPc hlock rfl rfl (by simp) (by simp) (by simp [hpc])
  | @commit t o r data hpc hop =>
      have hholds : (m.pc t).holds = true := by rw [hpc]; rfl
      refine ⟨hlock, fun u o' hu => ?_, fun u o' hu => ?_⟩
      · -- The thread that waits would hold the mutex too.
        by_cases hut : u = t
        · cases hn : ob.notifies o <;> simp [hut, hn] at hu
        · simp only [setPc_pc, if_neg hut] at hu
          exact absurd (hm.locked.unique (by rw [hu]; rfl) hholds) hut
      · cases hn : ob.notifies o with
        | true => exact .inr ⟨t, r, by simp⟩
        | false =>
            have hut : u ≠ t := by
              rintro rfl
              simp [hn] at hu
            simp only [setPc_pc, if_neg hut] at hu
            have hblocked := (hm.asleep u o' hu).resolve_right
              (hm.locked.not_notifying hholds (by simp [hpc]))
            exact .inl (hob o m.data r data hop hn o' hblocked)
  | @block t o hpc hop =>
      have hholds : (m.pc t).holds = true := by rw [hpc]; rfl
      refine ⟨hlock, fun u o' hu => ?_, fun u o' hu => ?_⟩
      · by_cases hut : u = t
        · simp only [hut, setPc_pc, if_true, Pc.wait.injEq] at hu
          exact hu ▸ hop
        · simp only [setPc_pc, if_neg hut] at hu
          exact hm.wait u o' hu
      · have hut : u ≠ t := by
          rintro rfl
          simp at hu
        simp only [setPc_pc, if_neg hut] at hu
        exact .inl ((hm.asleep u o' hu).resolve_right
          (hm.locked.not_notifying hholds (by simp [hpc])))
  | @notify t r hpc =>
      refine ⟨hlock, fun u o' hu => ?_, fun u o' hu => ?_⟩
      · have hut : u ≠ t := by
          rintro rfl
          simp at hu
        simp only [if_neg hut] at hu
        cases hu' : m.pc u <;> simp_all [Pc.wakeUp]
        exact hm.wait u o' hu'
      · exfalso
        by_cases hut : u = t
        · simp [hut] at hu
        · simp only [if_neg hut] at hu
          cases hu' : m.pc u <;> simp_all [Pc.wakeUp]
  | @sleep t o hpc =>
      have hholds : (m.pc t).holds = true := by rw [hpc]; rfl
      refine ⟨hlock, fun u o' hu => ?_, fun u o' hu => ?_⟩
      · have hut : u ≠ t := by
          rintro rfl
          simp at hu
        simp only [setPc_pc, if_neg hut] at hu
        exact hm.wait u o' hu
      · by_cases hut : u = t
        · simp only [hut, setPc_pc, if_true, Pc.asleep.injEq] at hu
          exact .inl (hu ▸ hm.wait t o hpc)
        · simp only [setPc_pc, if_neg hut] at hu
          exact .inl ((hm.asleep u o' hu).resolve_right
            (hm.locked.not_notifying hholds (by simp [hpc])))

end Step

/-! ## Termination -/

/-- The steps that a call can take before the next wake-up. -/
def Pc.rank : Pc O R → Nat
  | .idle | .asleep _ => 0
  | .done _ | .wait _ => 1
  | .unlock _ => 2
  | .notify _ => 3
  | .body _ => 4
  | .lock _ => 5
  | .again _ => 6
  | .awake _ => 7

/-- The call can still wake others up. -/
def Pc.pending : Pc O R → Nat
  | .idle | .done _ | .unlock _ => 0
  | _ => 1

theorem Pc.rank_le (pc : Pc O R) : pc.rank ≤ 7 := by
  cases pc <;> simp [Pc.rank]

@[simp] theorem Pc.wakeUp_pending (pc : Pc O R) : pc.wakeUp.pending = pc.pending := by
  cases pc <;> rfl

section Work
variable [Fintype T]

/-- A bound on the steps that the running calls can take. -/
def work (m : Monitor T S O R) : Nat :=
  (∑ t, (m.pc t).pending) * (8 * Fintype.card T) + ∑ t, (m.pc t).rank

variable [DecidableEq T] {ob : Object S O R} {m m' : Monitor T S O R}

theorem sum_setPc_lt (f : Pc O R → Nat) {t : T} {pc : Pc O R} (h : f pc < f (m.pc t)) :
    ∑ u, f ((m.setPc t pc).pc u) < ∑ u, f (m.pc u) := by
  refine Finset.sum_lt_sum (fun u _ => ?_) ⟨t, Finset.mem_univ t, by simpa using h⟩
  by_cases hu : u = t
  · simpa [hu] using h.le
  · simp [hu]

theorem sum_setPc_le (f : Pc O R → Nat) {t : T} {pc : Pc O R} (h : f pc ≤ f (m.pc t)) :
    ∑ u, f ((m.setPc t pc).pc u) ≤ ∑ u, f (m.pc u) := by
  refine Finset.sum_le_sum fun u _ => ?_
  by_cases hu : u = t
  · simpa [hu] using h
  · simp [hu]

/-- A thread moves on in its call. -/
theorem work_setPc_lt {t : T} {pc : Pc O R} (hpc : m'.pc = (m.setPc t pc).pc)
    (hpending : pc.pending ≤ (m.pc t).pending) (hrank : pc.rank < (m.pc t).rank) :
    m'.work < m.work := by
  have hp := sum_setPc_le (m := m) Pc.pending hpending
  have hr := sum_setPc_lt (m := m) Pc.rank hrank
  have hmul := Nat.mul_le_mul_right (8 * Fintype.card T) hp
  unfold work
  rw [hpc]
  omega

/-- A wake-up is paid for by the call that made it. -/
theorem work_notify_lt {t : T} {r : R} (ht : m.pc t = .notify r)
    (hpc : m'.pc = fun u => if u = t then .unlock r else (m.pc u).wakeUp) :
    m'.work < m.work := by
  have hp : ∑ u, (m'.pc u).pending < ∑ u, (m.pc u).pending := by
    refine Finset.sum_lt_sum (fun u _ => ?_) ⟨t, Finset.mem_univ t, by simp [hpc, ht, Pc.pending]⟩
    by_cases hu : u = t
    · simp [hpc, hu, Pc.pending]
    · simp [hpc, hu]
  have hr : ∑ u, (m'.pc u).rank ≤ 7 * Fintype.card T := by
    have h := Finset.sum_le_card_nsmul Finset.univ (fun u => (m'.pc u).rank) 7
      fun u _ => (m'.pc u).rank_le
    simpa [Nat.mul_comm] using h
  have hcard : 0 < Fintype.card T := Fintype.card_pos_iff.mpr ⟨t⟩
  have hmul := Nat.mul_le_mul_right (8 * Fintype.card T) (Nat.succ_le_of_lt hp)
  rw [Nat.succ_mul] at hmul
  unfold work
  omega

/-- Each step of a call reduces the work that is left. -/
theorem work_lt {t : T} (h : m.threadStep ob t = some m') : m'.work < m.work := by
  cases threadStep_cases h with
  | acquire hpc | block hpc | sleep hpc | reacquire hpc | again hpc | release hpc | ret hpc =>
      exact work_setPc_lt rfl (by simp [hpc, Pc.pending]) (by simp [hpc, Pc.rank])
  | @commit _ o r data hpc hop =>
      refine work_setPc_lt rfl ?_ ?_
      · cases ob.notifies o <;> simp [hpc, Pc.pending]
      · cases ob.notifies o <;> simp [hpc, Pc.rank]
  | notify hpc => exact work_notify_lt hpc rfl

end Work

/-! ## Rest -/

/-- No call can take a step: only new calls, and wake-ups for no reason, are possible. -/
def Quiescent [DecidableEq T] (ob : Object S O R) (m : Monitor T S O R) : Prop :=
  ∀ t, m.threadStep ob t = none

/-- At rest, the threads that are still in a call are asleep, and their operations have to
    wait. -/
theorem Quiescent.asleep [DecidableEq T] {ob : Object S O R} {m : Monitor T S O R}
    (hq : m.Quiescent ob) (hm : m.Alert ob) (t : T) :
    m.pc t = .idle ∨ ∃ o, m.pc t = .asleep o ∧ ob.apply o m.data = none := by
  -- The thread with the mutex could take a step.
  have hfree : m.owner = none := by
    cases howner : m.owner with
    | none => rfl
    | some u =>
        have hholds := (hm.locked u).mpr howner
        have hu := hq u
        unfold threadStep at hu
        cases hpc : m.pc u <;> simp [hpc, Pc.holds] at hu hholds
        split at hu <;> cases hu
  have hnot : ¬ m.Notifying := by
    rintro ⟨u, r, hu⟩
    have howner := (hm.locked u).mp (by rw [hu]; rfl)
    rw [hfree] at howner
    cases howner
  have ht := hq t
  unfold threadStep at ht
  cases hpc : m.pc t with
  | idle => exact .inl rfl
  | asleep o => exact .inr ⟨o, rfl, (hm.asleep t o hpc).resolve_right hnot⟩
  | body o =>
      rw [hpc] at ht
      dsimp only at ht
      split at ht <;> cases ht
  | _ => simp [hpc, hfree] at ht

/-! ## Runs -/

section Run
variable [DecidableEq T] {ob : Object S O R} {d : S} {m m' : Monitor T S O R}

theorem linearized_of_reaches (h : Transition.Reaches (step ob) (init d) m) : Linearized ob d m :=
  h.invariant (fun _ _ _ hs _ hstep => (step_cases hstep).linearized hs) (init_linearized ob d)

theorem alert_of_reaches (hob : ob.Quiet) (h : Transition.Reaches (step ob) (init d) m) :
    m.Alert ob :=
  h.invariant (fun _ _ _ hs _ hstep => (step_cases hstep).alert hob hs) (init_alert ob d)

/-- The steps of the calls are steps of the monitor. -/
theorem reaches_of_threads (h : Transition.Reaches (threadStep ob) m m') :
    Transition.Reaches (step ob) m m' := by
  induction h with
  | refl => exact .refl _
  | @tail m₁ m₂ t _ _ hstep ih =>
      have hact : step ob m₁ (.step t) = some m₂ := hstep
      exact .tail ih trivial hact

end Run

end Monitor
