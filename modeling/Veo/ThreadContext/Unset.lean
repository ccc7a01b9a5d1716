-- SUMMARY: Unset arguments: a call dereferences an empty slot exactly if the numbers of its arguments have a gap.
import Veo.CallArgs.Reuse
import Veo.Handlers.Throws
import Veo.ThreadContext.Basic
import Mathlib.Data.Set.List

/-!
# Unset arguments

The setters extend the vector with empty slots up to the number that they are given. The loops of
`setup`, `getRegVal` and `copyout` dereference every slot, and nothing between them and the
setters looks for an empty one.
-/

namespace Veo

namespace CallArgs

variable {σ : Type}

/-! ## The numbers of the arguments -/

/-- What an operation does to the set of the numbers of the arguments that are set. -/
def Use.numbers (set : Finset Nat) : Use σ → Finset Nat
  | .set argnum _ | .setOnStack _ argnum _ _ _ _ => insert argnum.toNat set
  | .clear => ∅
  | .setup _ | .getRegVal | .copyin _ | .copyout _ | .elsewhere _ _ => set

/-- The numbers of the arguments that were set after the last `clear`. -/
def setNumbers (us : List (Use σ)) : Finset Nat := us.foldl Use.numbers ∅

/-- Below an argument that is set, all arguments are. -/
def NoGaps (us : List (Use σ)) : Prop :=
  ∀ n ∈ setNumbers us, ∀ m < n, m ∈ setNumbers us

instance (us : List (Use σ)) : Decidable (NoGaps us) :=
  inferInstanceAs (Decidable (∀ n ∈ setNumbers us, ∀ m < n, m ∈ setNumbers us))

/-- The slots hold arguments at the numbers in `set`, and there are no slots behind them. -/
structure Filled (slots : List (Option Arg)) (set : Finset Nat) : Prop where
  mem_iff : ∀ m, m ∈ set ↔ ∃ a, slots[m]? = some (some a)
  lt_iff : ∀ m, m < slots.length ↔ ∃ n ∈ set, m ≤ n

theorem Filled.nil : Filled [] ∅ where
  mem_iff m := by simp
  lt_iff m := by simp

/-- Setting an argument adds its number. -/
theorem Filled.set {slots : List (Option Arg)} {set : Finset Nat} (h : Filled slots set) (n : Nat)
    (a : Arg) : Filled ((padded slots (n + 1)).set n (some a)) (insert n set) where
  mem_iff m := by
    have hold := h.mem_iff m
    rw [Finset.mem_insert, getElem?_set_padded]
    by_cases hm : m = n
    · simp [hm]
    · by_cases hlt : m < slots.length
      · simp [hm, hlt, hold]
      · have hnone : slots[m]? = none := List.getElem?_eq_none (Nat.le_of_not_lt hlt)
        rw [hnone] at hold
        by_cases hmn : m < n <;> simp [hm, hlt, hmn, hold]
  lt_iff m := by
    have hold := h.lt_iff m
    rw [length_set_padded, lt_max_iff, hold]
    constructor
    · rintro (⟨k, hk, hle⟩ | hlt)
      · exact ⟨k, Finset.mem_insert_of_mem hk, hle⟩
      · exact ⟨n, Finset.mem_insert_self n set, Nat.le_of_lt_succ hlt⟩
    · rintro ⟨k, hk, hle⟩
      rcases Finset.mem_insert.mp hk with rfl | hk
      · exact .inr (Nat.lt_succ_of_le hle)
      · exact .inl ⟨k, hk, hle⟩

/-- One operation. -/
theorem Filled.update {slots : List (Option Arg)} {set : Finset Nat} (h : Filled slots set)
    (u : Use σ) : Filled (u.update slots) (u.numbers set) := by
  cases u with
  | set argnum val => exact h.set argnum.toNat val.toArg
  | setOnStack intent argnum buff len lenLt vemva => exact h.set argnum.toNat _
  | clear => exact .nil
  | setup sp => exact h
  | getRegVal => exact h
  | copyin xfer => exact h
  | copyout xfer => exact h
  | elsewhere vh state => exact h

/-- A whole run. -/
theorem Filled.run {slots : List (Option Arg)} {set : Finset Nat} (h : Filled slots set)
    (us : List (Use σ)) : Filled (us.foldl Use.update slots) (us.foldl Use.numbers set) := by
  induction us generalizing slots set with
  | nil => exact h
  | cons u us ih => exact ih (h.update u)

/-- Every slot holds an argument exactly if the numbers have no gap. -/
theorem Filled.all_set_iff {slots : List (Option Arg)} {us : List (Use σ)}
    (h : Filled slots (setNumbers us)) :
    (∃ args : List Arg, slots = args.map some) ↔ NoGaps us := by
  constructor
  · rintro ⟨args, rfl⟩ n hn m hlt
    have hm : m < (args.map some).length := (h.lt_iff m).mpr ⟨n, hn, Nat.le_of_lt hlt⟩
    rw [List.length_map] at hm
    exact (h.mem_iff m).mpr ⟨args[m], by simp⟩
  · intro hgaps
    have hset : ∀ x ∈ slots, x ∈ Set.range some := by
      intro x hx
      obtain ⟨m, hm⟩ := List.mem_iff_getElem?.mp hx
      obtain ⟨hlt, -⟩ := List.getElem?_eq_some_iff.mp hm
      obtain ⟨n, hn, hle⟩ := (h.lt_iff m).mp hlt
      have hmem : m ∈ setNumbers us := by
        rcases Nat.lt_or_eq_of_le hle with hmn | rfl
        · exact hgaps n hn m hmn
        · exact hn
      obtain ⟨a, ha⟩ := (h.mem_iff m).mp hmem
      cases hm.symm.trans ha
      exact ⟨a, rfl⟩
    have hrange : slots ∈ Set.range (List.map some) := by rwa [Set.range_list_map]
    obtain ⟨args, hargs⟩ := hrange
    exact ⟨args, hargs.symm⟩

/-- The arguments of an object that was used from its construction on. -/
theorem all_set_iff {us : List (Use σ)} {w₀ w : World σ} (hfresh : w₀.args.arguments = [])
    (hrun : runUses us w₀ = .ok w) :
    (∃ args : List Arg, w.args.arguments = args.map some) ↔ NoGaps us := by
  have hgiven : w.args.given = us.foldl Use.update [] := by
    rw [runUses_given hrun, given, hfresh, List.map_nil]
  have hfilled : Filled w.args.given (setNumbers us) := hgiven ▸ Filled.nil.run us
  rw [← hfilled.all_set_iff]
  constructor
  · rintro ⟨args, h⟩
    exact ⟨args.map Arg.given, given_map_some h⟩
  · rintro ⟨args, h⟩
    obtain ⟨args', h', -⟩ := arguments_of_given h
    exact ⟨args', h'⟩

/-! ## The loops over the slots -/

theorem setup_null {ca : CallArgs} (h : ¬ ∃ args : List Arg, ca.arguments = args.map some)
    (vh : FlatMem) (sp : BitVec 64) : ca.setup vh sp = .error .nullDereference := by
  have hderef : ca.deref = .error .nullDereference := by
    unfold deref
    split
    · rename_i args hargs
      exact absurd ⟨args, arguments_of_mapM hargs⟩ h
    · rfl
  exact Except.bind_eq_error.mpr (.inl (Except.bind_eq_error.mpr (.inl hderef)))

theorem checkInt_ne_null {i : Int} : checkInt i ≠ .error .nullDereference := by
  unfold checkInt
  split <;> simp

theorem setup_ne_null {ca : CallArgs} {args : List Arg} (h : ca.arguments = args.map some)
    (vh : FlatMem) (sp : BitVec 64) : ca.setup vh sp ≠ .error .nullDereference := by
  intro hsetup
  rcases Except.bind_eq_error.mp hsetup with himg | ⟨⟨ca', sp', img⟩, -, h₁⟩
  · rcases Except.bind_eq_error.mp himg with hderef | ⟨args', -, h₂⟩
    · cases (deref_map_some h).symm.trans hderef
    · rcases Except.bind_eq_error.mp h₂ with harea | ⟨area, -, h₃⟩
      · exact checkInt_ne_null harea
      · rcases Except.bind_eq_error.mp h₃ with hsize | ⟨size, -, h₄⟩
        · exact checkInt_ne_null hsize
        · simp only at h₄
          split at h₄ <;> cases h₄
  · simp only at h₁
    split at h₁ <;> cases h₁

end CallArgs

/-! ## Requests -/

section Requests
variable {P : Platform} {addr : BitVec 64} {env : Env} {t : VeThread}

theorem exceptionHandler_ne_fault {f : SyscallFilter} {es : List WaitResult} {x : Fault}
    (ht : t.state = .running) : exceptionHandler P f es t ≠ .error (.fault x) := by
  intro h
  rcases first_stop P f es with ⟨pre, e, post, rfl, hpre, he⟩ | ⟨pre, n, post, rfl, hpre⟩ | hall
  · cases (exceptionHandler_first post ht hpre he).symm.trans h
  · cases (exceptionHandler_failed ht hpre).symm.trans h
  · cases (exceptionHandler_waits ht hall).symm.trans h

theorem liftFault_eq_fault {α : Type} {x : Except Fault α} {f : Fault} :
    liftFault x = .error (.fault f) ↔ x = .error f := by
  cases x <;> simp [liftFault]

/-- Starting a call does not dereference an empty slot if there is none. -/
theorem doCall_ne_null {args : List Arg} (h : env.args.arguments = args.map some) (m : Machine) :
    doCall addr env m t ≠ .error (.fault .nullDereference) := by
  intro hcall
  cases hsetup : env.args.setup env.vh t.veSp with
  | ok r =>
      obtain ⟨started, hok, -⟩ := doCall_of_setup addr m h hsetup
      cases hok.symm.trans hcall
  | error f =>
      rcases Except.bind_eq_error.mp hcall with h₁ | ⟨r, h₁, -⟩
      · exact CallArgs.setup_ne_null h env.vh t.veSp (liftFault_eq_fault.mp h₁)
      · cases hsetup.symm.trans (liftFault_eq_ok.mp h₁)

/-- The handler of a call dereferences an empty slot exactly if there is one. -/
theorem callAsync_null_iff :
    Handler.exec P (.callAsync addr) env t = .error (.fault .nullDereference) ↔
      ¬ ∃ args : List Arg, env.args.arguments = args.map some := by
  constructor
  · rintro h ⟨args, hset⟩
    rcases callAsync_eq_error h with h₁ | ⟨s, hs, hwait | hassert⟩
    · exact doCall_ne_null hset env.machine h₁
    · exact exceptionHandler_ne_fault (doCall_running hs) hwait
    · cases hassert
  · intro h
    have hnull := liftFault_eq_fault.mpr (CallArgs.setup_null h env.vh t.veSp)
    exact Except.bind_eq_error.mpr (.inl (Except.bind_eq_error.mpr (.inl hnull)))

/-- A request to call the function at `addr`: the tests of `callAsync` and of `pushRequest`, which
    find the context in the state `state` and the request queue in the status `queue`, and the
    handler that the pseudo thread runs later on. There is none if the request is rejected. An
    accepted request that is drained when another one fails is not run either, and a gap does no
    harm there; here the pseudo thread comes to the request. -/
def callRequest (P : Platform) (addr : BitVec 64) (state : ContextState) (queue : QueueStatus)
    (env : Env) (t : VeThread) : Option (Except Stop Outcome) :=
  if (Handler.callAsync addr).isNull ∨ state = .exit then none
  else if queue = .ready then some ((Handler.callAsync addr).exec P env t)
  else none

/-- After any operations on a new arguments object, a call with it dereferences no empty slot
    exactly if the request is rejected or the numbers of the arguments have no gap. -/
theorem callRequest_safe_iff {σ : Type} {us : List (CallArgs.Use σ)} {w₀ w : CallArgs.World σ}
    (hfresh : w₀.args.arguments = []) (hrun : CallArgs.runUses us w₀ = .ok w)
    (hargs : env.args = w.args) (state : ContextState) (queue : QueueStatus) :
    callRequest P addr state queue env t ≠ some (.error (.fault .nullDereference)) ↔
      (addr = 0 ∨ state = .exit ∨ queue = .closed) ∨ CallArgs.NoGaps us := by
  have hsafe : Handler.exec P (.callAsync addr) env t ≠ .error (.fault .nullDereference) ↔
      CallArgs.NoGaps us := by
    rw [ne_eq, callAsync_null_iff, not_not, hargs, CallArgs.all_set_iff hfresh hrun]
  have hnull : (Handler.callAsync addr).isNull = true ↔ addr = 0 := beq_iff_eq
  unfold callRequest
  by_cases hrej : (Handler.callAsync addr).isNull = true ∨ state = .exit
  · rw [if_pos hrej]
    rw [hnull] at hrej
    exact iff_of_true nofun (.inl (hrej.imp_right .inl))
  · rw [if_neg hrej]
    rw [hnull, not_or] at hrej
    cases queue with
    | closed => exact iff_of_true nofun (.inl (.inr (.inr rfl)))
    | ready => simpa only [if_true, ne_eq, Option.some.injEq, hrej.1, hrej.2, false_or,
        reduceCtorEq] using hsafe

/-- Two arguments are set, the second one first. -/
theorem callRequest_safe_swapped :
    let us : List (CallArgs.Use Unit) := [.set 1 (.double 7), .set 0 (.int .int32 5)]
    let w₀ : CallArgs.World Unit := ⟨⟨[], 3, 4, [5], true, true⟩, fun _ => 0, ()⟩
    let env : CallArgs → Env := fun args => { Env.plain [] [] with args := args }
    let t : VeThread := ⟨.blocked, 0x10000, fun _ => 0, [], []⟩
    ∃ w, CallArgs.runUses us w₀ = .ok w ∧
      callRequest linuxPlatform 0x6000 .blocked .ready (env w.args) t ≠
        some (.error (.fault .nullDereference)) := by
  intro us w₀ env t
  obtain ⟨w, hw⟩ : ∃ w, CallArgs.runUses us w₀ = .ok w := ⟨_, rfl⟩
  exact ⟨w, hw, (callRequest_safe_iff rfl hw rfl .blocked .ready).mpr (.inr (by decide))⟩

/-- Only the second argument is set, and the call is accepted. -/
theorem callRequest_null :
    let us : List (CallArgs.Use Unit) := [.set 1 (.double 7)]
    let w₀ : CallArgs.World Unit := ⟨⟨[], 3, 4, [5], true, true⟩, fun _ => 0, ()⟩
    let env : CallArgs → Env := fun args => { Env.plain [] [] with args := args }
    let t : VeThread := ⟨.blocked, 0x10000, fun _ => 0, [], []⟩
    ∃ w, CallArgs.runUses us w₀ = .ok w ∧
      callRequest linuxPlatform 0x6000 .blocked .ready (env w.args) t =
        some (.error (.fault .nullDereference)) := by
  intro us w₀ env t
  exact ⟨_, rfl, rfl⟩

end Requests

end Veo
