-- SUMMARY: Labelled transition systems given by a partial step function: runs under a guard, the invariant rules, and traces.
import Mathlib.Logic.Basic
import Mathlib.Tactic.Push

/-!
# Transition systems

A system is a partial function `step : S → A → Option S`: the action `a` is enabled in `s`
if `step s a` is defined. A run takes steps that satisfy a guard; the guard `fun _ _ => True`
gives all runs. A guard is how a condition on the steps of a run is stated.
-/

namespace Transition

variable {S A : Type}

/-- `s'` is reached from `s` by steps that satisfy the guard. -/
inductive Run (step : S → A → Option S) (guard : S → A → Prop) : S → S → Prop where
  | refl (s : S) : Run step guard s s
  | tail {s s₁ s₂ : S} {a : A} : Run step guard s s₁ → guard s₁ a → step s₁ a = some s₂ →
      Run step guard s s₂

/-- `s'` is reached from `s`. -/
def Reaches (step : S → A → Option S) : S → S → Prop := Run step fun _ _ => True

/-- The state to which a list of actions leads, if every step is enabled and passes the
    check. -/
def runList (step : S → A → Option S) (check : S → A → Bool) : S → List A → Option S
  | s, [] => some s
  | s, a :: as =>
    if check s a then (step s a).bind fun s' => runList step check s' as else none

variable {step : S → A → Option S} {guard : S → A → Prop} {s s₁ s₂ : S}

namespace Run

theorem trans (h₁ : Run step guard s s₁) (h₂ : Run step guard s₁ s₂) : Run step guard s s₂ := by
  induction h₂ with
  | refl => exact h₁
  | tail _ hg hstep ih => exact .tail ih hg hstep

/-- A run under a guard is a run. -/
theorem reaches (h : Run step guard s s₁) : Reaches step s s₁ := by
  induction h with
  | refl => exact .refl _
  | tail _ _ hstep ih => exact .tail ih trivial hstep

/-- A run under a guard is a run under every weaker one. -/
theorem mono {guard' : S → A → Prop} (hguard : ∀ s a, guard s a → guard' s a)
    (h : Run step guard s s₁) : Run step guard' s s₁ := by
  induction h with
  | refl => exact .refl _
  | tail _ hg hstep ih => exact .tail ih (hguard _ _ hg) hstep

/-- What every guarded step preserves holds at the end of every run. -/
theorem invariant {I : S → Prop}
    (hstep : ∀ s a s', I s → guard s a → step s a = some s' → I s')
    (h : Run step guard s s₁) (hs : I s) : I s₁ := by
  induction h with
  | refl => exact hs
  | tail _ hg hst ih => exact hstep _ _ _ ih hg hst

/-- The invariant rule relative to an invariant of all runs. -/
theorem invariant_of {B I : S → Prop}
    (hbase : ∀ s a s', B s → step s a = some s' → B s')
    (hstep : ∀ s a s', B s → I s → guard s a → step s a = some s' → I s')
    (h : Run step guard s s₁) (hb : B s) (hs : I s) : I s₁ := by
  have hboth := h.invariant (I := fun s => B s ∧ I s)
    (fun s a s' hi hg hst => ⟨hbase s a s' hi.1 hst, hstep s a s' hi.1 hi.2 hg hst⟩) ⟨hb, hs⟩
  exact hboth.2

end Run

/-- A list of actions is a run under every guard that the check implies. -/
theorem run_of_runList {check : S → A → Bool} {as : List A}
    (hcheck : ∀ s a, check s a = true → guard s a) (h : runList step check s as = some s₁) :
    Run step guard s s₁ := by
  induction as generalizing s with
  | nil =>
      cases h
      exact .refl _
  | cons a as ih =>
      unfold runList at h
      split at h
      · rename_i hc
        obtain ⟨s', hstep, hrest⟩ := Option.bind_eq_some_iff.mp h
        exact Run.trans (.tail (.refl _) (hcheck _ a hc) hstep) (ih hrest)
      · cases h

/-- A list of actions whose last state satisfies a decidable property. -/
theorem exists_run (step : S → A → Option S) (check : S → A → Bool) (s : S) (as : List A)
    (p : S → Bool) (hcheck : ∀ s a, check s a = true → guard s a)
    (h : (runList step check s as).map p = some true) : ∃ s', Run step guard s s' ∧ p s' = true := by
  obtain ⟨s', hrun, hp⟩ := Option.map_eq_some_iff.mp h
  exact ⟨s', run_of_runList hcheck hrun, hp⟩

theorem exists_reaches (step : S → A → Option S) (s : S) (as : List A) (p : S → Bool)
    (h : (runList step (fun _ _ => true) s as).map p = some true) :
    ∃ s', Reaches step s s' ∧ p s' = true :=
  exists_run step (fun _ _ => true) s as p (fun _ _ _ => trivial) h

/-- Steps that reduce a measure: a run is no longer than the measure of its first state. -/
theorem runList_length_le {check : S → A → Bool} {as : List A} (μ : S → Nat)
    (hdec : ∀ s a s', step s a = some s' → μ s' < μ s) (h : runList step check s as = some s₁) :
    as.length + μ s₁ ≤ μ s := by
  induction as generalizing s with
  | nil =>
      cases h
      simp
  | cons a as ih =>
      unfold runList at h
      split at h
      · obtain ⟨s', hstep, hrest⟩ := Option.bind_eq_some_iff.mp h
        have hlt := hdec s a s' hstep
        have hle := ih hrest
        simp only [List.length_cons]
        omega
      · cases h

/-- Steps that reduce a measure lead to a state without further ones. -/
theorem exists_rest (μ : S → Nat) (hdec : ∀ s a s', step s a = some s' → μ s' < μ s) (s : S) :
    ∃ as s', runList step (fun _ _ => true) s as = some s' ∧ ∀ a, step s' a = none := by
  induction hn : μ s using Nat.strongRecOn generalizing s with
  | ind n ih =>
      by_cases hrest : ∀ a, step s a = none
      · exact ⟨[], s, rfl, hrest⟩
      · push Not at hrest
        obtain ⟨a, ha⟩ := hrest
        obtain ⟨s', hstep⟩ := Option.ne_none_iff_exists'.mp ha
        obtain ⟨as, s'', hrun, hlast⟩ := ih (μ s') (hn ▸ hdec s a s' hstep) s' rfl
        exact ⟨a :: as, s'', by simp [runList, hstep, hrun], hlast⟩

/-- Guarded steps that keep an invariant and reduce a measure until the goal is reached. -/
theorem exists_run_to {I G : S → Prop} (μ : S → Nat)
    (hstep : ∀ s, I s → G s ∨ ∃ a s', guard s a ∧ step s a = some s' ∧ I s' ∧ μ s' < μ s)
    (hs : I s) : ∃ s', Run step guard s s' ∧ I s' ∧ G s' := by
  induction hn : μ s using Nat.strongRecOn generalizing s with
  | ind n ih =>
      rcases hstep s hs with hgoal | ⟨a, s', hg, hst, hs', hlt⟩
      · exact ⟨s, .refl s, hs, hgoal⟩
      · obtain ⟨s'', hrun, hgoal⟩ := ih (μ s') (hn ▸ hlt) hs' rfl
        exact ⟨s'', Run.trans (.tail (.refl s) hg hst) hrun, hgoal⟩

/-- A property of the actions taken so far and of the state they led to. -/
theorem runList_induction {check : S → A → Bool} {as : List A} {I : List A → S → Prop}
    (hnil : I [] s)
    (hstep : ∀ as s a s', I as s → check s a = true → step s a = some s' → I (as ++ [a]) s')
    (h : runList step check s as = some s₁) : I as s₁ := by
  suffices hprefix : ∀ pre s, I pre s → runList step check s as = some s₁ → I (pre ++ as) s₁ from
    hprefix [] s hnil h
  clear h hnil
  induction as with
  | nil =>
      intro pre s hpre h
      cases h
      simpa using hpre
  | cons a as ih =>
      intro pre s hpre h
      unfold runList at h
      split at h
      · rename_i hc
        obtain ⟨s', hst, hrest⟩ := Option.bind_eq_some_iff.mp h
        have hnext := ih (pre ++ [a]) s' (hstep pre s a s' hpre hc hst) hrest
        simpa using hnext
      · cases h

/-! ## Traces of a labelled relation -/

/-- The labels of `ls` lead from `s` to `s'`. -/
def Trace {L : Type} (R : S → L → S → Prop) : S → List L → S → Prop
  | s, [], s' => s = s'
  | s, l :: ls, s' => ∃ m, R s l m ∧ Trace R m ls s'

section Trace
variable {L : Type} {R : S → L → S → Prop} {ls ls' : List L}

theorem trace_append : Trace R s (ls ++ ls') s₂ ↔ ∃ m, Trace R s ls m ∧ Trace R m ls' s₂ := by
  induction ls generalizing s with
  | nil =>
      constructor
      · intro h
        exact ⟨s, rfl, h⟩
      · rintro ⟨m, rfl, h⟩
        exact h
  | cons l ls ih =>
      constructor
      · rintro ⟨m, hl, h⟩
        obtain ⟨m', h₁, h₂⟩ := ih.mp h
        exact ⟨m', ⟨m, hl, h₁⟩, h₂⟩
      · rintro ⟨m', ⟨m, hl, h₁⟩, h₂⟩
        exact ⟨m, hl, ih.mpr ⟨m', h₁, h₂⟩⟩

/-- What no label of a trace changes is the same at both ends. -/
theorem Trace.frame {β : Type} {f : S → β} (h : Trace R s ls s₁)
    (hf : ∀ l ∈ ls, ∀ s s', R s l s' → f s' = f s) : f s₁ = f s := by
  induction ls generalizing s with
  | nil => exact congrArg f h.symm
  | cons l ls ih =>
      obtain ⟨m, hl, h⟩ := h
      have hrest := ih h fun l hl => hf l (List.mem_cons_of_mem _ hl)
      exact hrest.trans (hf l List.mem_cons_self s m hl)

end Trace

end Transition
