-- SUMMARY: The blocking queue with its mutex and its condition variable: the operations are atomic, no wake-up is lost.
import Veo.Command
import Veo.Lib.Monitor

/-!
# The mutex and the condition variable of a queue

`BlockingQueue` at the level of its `std::mutex` and `std::condition_variable`. The loops of
`pop` and `wait` unlock the mutex between a wake-up and the next try. The code between the locking
and the unlocking of the mutex is one step here. The rest of the development takes each operation,
with its waiting, as one step; here is why it may.
-/

namespace Veo

open Transition

/-- The public operations on the commands of a queue. -/
inductive QueueOp (T : Type) where
  | push (c : Command T)
  | pop
  | tryFind (msgid : BitVec 64)
  | wait (msgid : BitVec 64)
  | popNoWait
deriving DecidableEq

variable {T U : Type}

/-- The part of an operation that is made under the mutex. `pop` and `wait` call `cond.wait`
    where it is undefined; the others return, `tryFind` and `popNoWait` with a null pointer
    if there is no command. -/
def QueueOp.apply : QueueOp T → BlockingQueue T → Option (Option (Command T) × BlockingQueue T)
  | .push c, q => some (none, q.push c)
  | .pop, q => q.popNoWait.map fun r => (some r.1, r.2)
  | .tryFind msgid, q =>
    match q.tryFind msgid with
    | some r => some (some r.1, r.2)
    | none => some (none, q)
  | .wait msgid, q => (q.tryFind msgid).map fun r => (some r.1, r.2)
  | .popNoWait, q =>
    match q.popNoWait with
    | some r => some (some r.1, r.2)
    | none => some (none, q)

/-- Only `push` calls `notify_all`. -/
def QueueOp.notifies : QueueOp T → Bool
  | .push _ => true
  | _ => false

namespace BlockingQueue

def object : Monitor.Object (BlockingQueue T) (QueueOp T) (Option (Command T)) :=
  ⟨QueueOp.apply, QueueOp.notifies⟩

/-- A queue with its mutex and condition variable, used by the threads `U`. -/
abbrev Shared (U T : Type) : Type :=
  Monitor U (BlockingQueue T) (QueueOp T) (Option (Command T))

/-- The command that the operation waits for is not in the queue. -/
def Lacks (q : BlockingQueue T) : QueueOp T → Prop
  | .pop => q.queue = []
  | .wait msgid => ∀ c ∈ q.queue, c.msgid ≠ msgid
  | _ => False

theorem tryFind_eq_none {q : BlockingQueue T} {msgid : BitVec 64} :
    q.tryFind msgid = none ↔ ∀ c ∈ q.queue, c.msgid ≠ msgid := by
  constructor
  · intro h c hc hid
    have hfound := tryFind_isSome hc hid
    rw [h] at hfound
    cases hfound
  · intro h
    cases hfind : q.tryFind msgid with
    | none => rfl
    | some r =>
        obtain ⟨c, q'⟩ := r
        obtain ⟨hid, -, l₁, l₂, hqueue, -⟩ := tryFind_eq_some hfind
        exact absurd hid (h c (by simp [hqueue]))

/-- An operation blocks exactly while its command is missing. -/
theorem apply_eq_none {q : BlockingQueue T} {o : QueueOp T} : o.apply q = none ↔ q.Lacks o := by
  cases o with
  | push c => simp [QueueOp.apply, Lacks]
  | pop => simp [QueueOp.apply, Lacks, popNoWait_eq_none]
  | tryFind msgid =>
      simp only [QueueOp.apply, Lacks]
      split <;> simp
  | wait msgid => simpa [QueueOp.apply, Lacks] using tryFind_eq_none
  | popNoWait =>
      simp only [QueueOp.apply, Lacks]
      split <;> simp

/-- What an operation adds to the queue, or takes out of it. -/
theorem apply_cases {q q' : BlockingQueue T} {o : QueueOp T} {r : Option (Command T)}
    (h : o.apply q = some (r, q')) :
    (∃ c, o = .push c ∧ r = none ∧ q'.queue = q.queue ++ [c]) ∨
    ((o = .pop ∨ o = .popNoWait) ∧ q.queue = r.toList ++ q'.queue) ∨
    (∃ msgid, (o = .tryFind msgid ∨ o = .wait msgid) ∧ q.queue.Perm (r.toList ++ q'.queue)) := by
  have hfind : ∀ {c msgid}, q.tryFind msgid = some (c, q') → q.queue.Perm (c :: q'.queue) := by
    intro c msgid hc
    obtain ⟨-, -, l₁, l₂, hqueue, hqueue'⟩ := tryFind_eq_some hc
    rw [hqueue, hqueue']
    exact List.perm_middle
  cases o with
  | push c =>
      cases h
      exact .inl ⟨c, rfl, rfl, rfl⟩
  | pop =>
      obtain ⟨⟨c, q₁⟩, hc, heq⟩ := Option.map_eq_some_iff.mp h
      cases heq
      exact .inr (.inl ⟨.inl rfl, (popNoWait_eq_some.mp hc).1⟩)
  | tryFind msgid =>
      simp only [QueueOp.apply] at h
      split at h
      · rename_i r' hr
        cases h
        exact .inr (.inr ⟨msgid, .inl rfl, hfind hr⟩)
      · cases h
        exact .inr (.inr ⟨msgid, .inl rfl, .refl _⟩)
  | wait msgid =>
      obtain ⟨⟨c, q₁⟩, hc, heq⟩ := Option.map_eq_some_iff.mp h
      cases heq
      exact .inr (.inr ⟨msgid, .inr rfl, hfind hc⟩)
  | popNoWait =>
      simp only [QueueOp.apply] at h
      split at h
      · rename_i r' hr
        cases h
        exact .inr (.inl ⟨.inr rfl, (popNoWait_eq_some.mp hr).1⟩)
      · cases h
        exact .inr (.inl ⟨.inr rfl, rfl⟩)

/-- Every operation but `push` only takes commands out. -/
theorem apply_subset {q q' : BlockingQueue T} {o : QueueOp T} {r : Option (Command T)}
    (h : o.apply q = some (r, q')) (ho : o.notifies = false) : q'.queue ⊆ q.queue := by
  rcases apply_cases h with ⟨c, rfl, -, -⟩ | ⟨-, hq⟩ | ⟨msgid, -, hq⟩
  · cases ho
  · rw [hq]
    exact List.subset_append_right _ _
  · exact fun x hx => hq.mem_iff.mpr (List.mem_append_right _ hx)

theorem Lacks.mono {q q' : BlockingQueue T} {o : QueueOp T} (h : q.Lacks o)
    (hsub : q'.queue ⊆ q.queue) : q'.Lacks o := by
  cases o with
  | pop =>
      have hnil : q.queue = [] := h
      rw [hnil] at hsub
      exact List.subset_nil.mp hsub
  | wait msgid => exact fun c hc => h c (hsub hc)
  | _ => exact h

theorem object_quiet : (object (T := T)).Quiet := by
  intro o q r q' hop ho o' hblocked
  have hlacks : q.Lacks o' := apply_eq_none.mp hblocked
  exact apply_eq_none.mpr (hlacks.mono (apply_subset hop ho))

/-! ## Commands in the history -/

abbrev Event (U T : Type) : Type := Monitor.Event U (QueueOp T) (Option (Command T))

/-- The commands that were pushed. -/
def pushed (h : List (Event U T)) : List (Command T) :=
  h.filterMap fun
    | .commit _ (.push c) _ => some c
    | _ => none

/-- The commands that were taken out. -/
def taken (h : List (Event U T)) : List (Command T) :=
  h.filterMap fun
    | .commit _ _ r => r
    | _ => none

/-- No command was taken out by its ID. -/
def Unsearched (h : List (Event U T)) : Prop :=
  ∀ u msgid r, .commit u (.tryFind msgid) r ∉ h ∧ .commit u (.wait msgid) r ∉ h

section History
variable {q q' : BlockingQueue T} {h : List (Event U T)}

theorem legal_perm (hlegal : Monitor.Legal object q h q') :
    (q.queue ++ pushed h).Perm (taken h ++ q'.queue) := by
  induction hlegal with
  | nil => simp [pushed, taken]
  | call t o _ ih | ret t r _ ih => simpa [pushed, taken] using ih
  | @commit h q₁ q₂ t o r _ hop ih =>
      rcases apply_cases hop with ⟨c, rfl, rfl, hq⟩ | ⟨rfl | rfl, hq⟩ | ⟨msgid, rfl | rfl, hq⟩
      · rw [hq]
        simpa [pushed, taken] using ih.append_right [c]
      all_goals
        have hmoved : (taken h ++ q₁.queue).Perm (taken h ++ (r.toList ++ q₂.queue)) :=
          List.Perm.append_left _ (by first | exact hq | rw [hq])
        cases r <;> simpa [pushed, taken] using ih.trans hmoved

theorem legal_fifo (hlegal : Monitor.Legal object q h q') (hun : Unsearched h) :
    q.queue ++ pushed h = taken h ++ q'.queue := by
  induction hlegal with
  | nil => simp [pushed, taken]
  | call t o _ ih | ret t r _ ih =>
      simpa [pushed, taken] using ih fun u msgid r' => by simpa using hun u msgid r'
  | @commit h q₁ q₂ t o r _ hop ih =>
      have ih := ih fun u msgid r' => by
        have hboth := hun u msgid r'
        simp only [List.mem_append, not_or] at hboth
        exact ⟨hboth.1.1, hboth.2.1⟩
      rcases apply_cases hop with ⟨c, rfl, rfl, hq⟩ | ⟨rfl | rfl, hq⟩ | ⟨msgid, rfl | rfl, hq⟩
      · have hpushed := congrArg (· ++ [c]) ih
        simpa [hq, pushed, taken] using hpushed
      · rw [hq] at ih
        cases r <;> simpa [pushed, taken] using ih
      · rw [hq] at ih
        cases r <;> simpa [pushed, taken] using ih
      · exact absurd (by simp) (hun t msgid r).1
      · exact absurd (by simp) (hun t msgid r).2

end History

/-! ## Runs -/

section Run
variable [DecidableEq U] {q : BlockingQueue T} {m : Shared U T}

/-- Whatever the threads do, the calls behave like operations that are made one after the
    other, each at one moment between its call and its return: the step under the mutex that does
    not wait. So no command is lost or handed out twice, and a queue that is not searched hands
    them out in order. -/
theorem shared_linearized (h : Reaches (Monitor.step object) (Monitor.init q) m) :
    Monitor.Linearized object q m ∧
    (q.queue ++ pushed m.hist).Perm (taken m.hist ++ m.data.queue) ∧
    (Unsearched m.hist → q.queue ++ pushed m.hist = taken m.hist ++ m.data.queue) := by
  have hlin := Monitor.linearized_of_reaches h
  exact ⟨hlin, legal_perm hlin.legal, legal_fifo hlin.legal⟩

/-- No wake-up is lost: a thread sleeps only while the command it waits for is missing, or
    until the thread with the mutex has called `notify_all`. -/
theorem shared_asleep (h : Reaches (Monitor.step object) (Monitor.init q) m) {u : U} {o : QueueOp T}
    (hu : m.pc u = .asleep o) :
    m.data.Lacks o ∨ ∃ v r, m.owner = some v ∧ m.pc v = .notify r := by
  have halert := Monitor.alert_of_reaches object_quiet h
  rcases halert.asleep u o hu with hblocked | ⟨v, r, hv⟩
  · exact .inl (apply_eq_none.mp hblocked)
  · have hholds : (m.pc v).holds = true := by rw [hv]; rfl
    exact .inr ⟨v, r, (halert.locked v).mp hholds, hv⟩

/-- Without new calls and without wake-ups for no reason, the threads take a bounded number
    of steps, in any order. When none of them can go on, a thread that is still in a call
    sleeps, and the command it waits for is not in the queue. -/
theorem shared_settles [Fintype U] (h : Reaches (Monitor.step object) (Monitor.init q) m) :
    (∀ us m', runList (Monitor.threadStep object) (fun _ _ => true) m us = some m' →
      us.length ≤ m.work ∧
      (m'.Quiescent object →
        ∀ u, m'.pc u = .idle ∨ ∃ o, m'.pc u = .asleep o ∧ m'.data.Lacks o)) ∧
    ∃ us m', runList (Monitor.threadStep object) (fun _ _ => true) m us = some m' ∧
      m'.Quiescent object := by
  have hdec : ∀ (m₁ : Shared U T) u m₂, m₁.threadStep object u = some m₂ → m₂.work < m₁.work :=
    fun _ _ _ => Monitor.work_lt
  refine ⟨fun us m' hrun => ⟨?_, fun hrest u => ?_⟩, exists_rest Monitor.work hdec m⟩
  · have hlen := runList_length_le Monitor.work hdec hrun
    omega
  · have hreach : Reaches (Monitor.step object) (Monitor.init q) m' :=
      h.trans (Monitor.reaches_of_threads (run_of_runList (fun _ _ _ => trivial) hrun))
    rcases hrest.asleep (Monitor.alert_of_reaches object_quiet hreach) u with hidle | ⟨o, ho, hblocked⟩
    · exact .inl hidle
    · exact .inr ⟨o, ho, apply_eq_none.mp hblocked⟩

end Run

/-- A thread calls `pop` on the empty queue and sleeps; another one pushes a command. -/
def popThenPush : List (Monitor.Act (Fin 2) (QueueOp Unit)) :=
  [.call 0 .pop, .step 0, .step 0, .step 0,
   .call 1 (.push ⟨⟨(), 0, 7, .close⟩, none⟩), .step 1, .step 1]

/-- The wake-up, and the steps with which `pop` returns the command. -/
def wakeThenReturn : List (Monitor.Act (Fin 2) (QueueOp Unit)) :=
  [.step 1, .step 1, .step 1, .step 0, .step 0, .step 0, .step 0, .step 0, .step 0]

theorem shared_linearized_returned :
    ∃ m : Shared (Fin 2) Unit, Reaches (Monitor.step object) (Monitor.init ⟨[], .ready⟩) m ∧
      m.hist.getLast? = some (.ret 0 (some ⟨⟨(), 0, 7, .close⟩, none⟩)) ∧
      (pushed m.hist).Perm (taken m.hist ++ m.data.queue) := by
  obtain ⟨m, hreach, hm⟩ := exists_reaches (Monitor.step object)
    (Monitor.init ⟨[], .ready⟩ : Shared (Fin 2) Unit) (popThenPush ++ wakeThenReturn)
    (fun m => m.hist.getLast? = some (.ret 0 (some ⟨⟨(), 0, 7, .close⟩, none⟩))) (by decide)
  exact ⟨m, hreach, of_decide_eq_true hm, (shared_linearized hreach).2.1⟩

theorem shared_asleep_pushed :
    ∃ m : Shared (Fin 2) Unit, Reaches (Monitor.step object) (Monitor.init ⟨[], .ready⟩) m ∧
      m.pc 0 = .asleep .pop ∧ m.data.queue ≠ [] ∧
      (m.data.Lacks .pop ∨ ∃ v r, m.owner = some v ∧ m.pc v = .notify r) := by
  obtain ⟨m, hreach, hm⟩ := exists_reaches (Monitor.step object)
    (Monitor.init ⟨[], .ready⟩ : Shared (Fin 2) Unit) popThenPush
    (fun m => m.pc 0 = .asleep .pop ∧ m.data.queue ≠ []) (by decide)
  obtain ⟨hpc, hqueue⟩ := of_decide_eq_true hm
  exact ⟨m, hreach, hpc, hqueue, shared_asleep hreach hpc⟩

theorem shared_settles_pushed :
    ∃ m : Shared (Fin 2) Unit, Reaches (Monitor.step object) (Monitor.init ⟨[], .ready⟩) m ∧
      m.pc 0 = .asleep .pop ∧ ∃ us m', runList (Monitor.threadStep object) (fun _ _ => true) m us = some m' ∧
        m'.Quiescent object := by
  obtain ⟨m, hreach, hm⟩ := exists_reaches (Monitor.step object)
    (Monitor.init ⟨[], .ready⟩ : Shared (Fin 2) Unit) popThenPush
    (fun m => m.pc 0 = .asleep .pop) (by decide)
  exact ⟨m, hreach, of_decide_eq_true hm, (shared_settles hreach).2⟩

end BlockingQueue

end Veo
