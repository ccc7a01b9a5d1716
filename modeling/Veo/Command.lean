-- SUMMARY: Commands and the pair of queues between the callers of a context and its pseudo thread.
import Veo.Handlers

/-!
# Commands and queues

A command carries the ID it was issued, the function object that the pseudo thread calls,
and the result once it is set. The queues are protected by a mutex, so each of their
operations is one step; an operation that blocks is undefined while it does.
-/

namespace Veo

/-- The function object of a command: one of the handlers, or the one of a close request. -/
inductive Kind where
  | handler (f : Handler)
  | close
deriving DecidableEq

/-- What a command is, apart from its result. A command is identified by the caller that
    created it and the number of the call that did. -/
structure Ticket (T : Type) where
  caller : T
  call : Nat
  msgid : BitVec 64
  kind : Kind
deriving DecidableEq

/-- `Command`. The result is indeterminate until it is set. -/
structure Command (T : Type) extends Ticket T where
  result : Option CmdResult
deriving DecidableEq

variable {T : Type}

/-- `setResult`. -/
def Command.setResult (c : Command T) (r : CmdResult) : Command T := { c with result := some r }

@[simp, grind =] theorem Command.setResult_toTicket (c : Command T) (r : CmdResult) :
    (c.setResult r).toTicket = c.toTicket := rfl

@[simp, grind =] theorem Command.setResult_result (c : Command T) (r : CmdResult) :
    (c.setResult r).result = some r := rfl

/-! ## `BlockingQueue` -/

structure BlockingQueue (T : Type) where
  queue : List (Command T)
  status : QueueStatus
deriving DecidableEq

namespace BlockingQueue

/-- `push`. -/
def push (q : BlockingQueue T) (c : Command T) : BlockingQueue T :=
  { q with queue := q.queue ++ [c] }

/-- `popNoWait`, and `pop` when it does not block. -/
def popNoWait (q : BlockingQueue T) : Option (Command T × BlockingQueue T) :=
  match q.queue with
  | [] => none
  | c :: queue => some (c, { q with queue := queue })

/-- The loop of `tryFindNoLock`: the first command with the ID is taken out. -/
def takeFirst (msgid : BitVec 64) : List (Command T) → Option (Command T × List (Command T))
  | [] => none
  | c :: cs =>
    if c.msgid = msgid then some (c, cs)
    else (takeFirst msgid cs).map fun r => (r.1, c :: r.2)

/-- `tryFind`, and `wait` when it does not block. -/
def tryFind (q : BlockingQueue T) (msgid : BitVec 64) : Option (Command T × BlockingQueue T) :=
  (takeFirst msgid q.queue).map fun r => (r.1, { q with queue := r.2 })

theorem popNoWait_eq_none {q : BlockingQueue T} : q.popNoWait = none ↔ q.queue = [] := by
  unfold popNoWait
  cases q.queue <;> simp

theorem popNoWait_eq_some {q q' : BlockingQueue T} {c : Command T} :
    q.popNoWait = some (c, q') ↔ q.queue = c :: q'.queue ∧ q'.status = q.status := by
  obtain ⟨queue, status⟩ := q
  obtain ⟨queue', status'⟩ := q'
  cases queue with
  | nil => simp [popNoWait]
  | cons x xs =>
      simp only [popNoWait, Option.some.injEq, Prod.mk.injEq, BlockingQueue.mk.injEq,
        List.cons.injEq]
      grind

/-- A command that is taken out had the ID, and the others stay in order. -/
theorem takeFirst_eq_some {msgid : BitVec 64} {cs rest : List (Command T)} {c : Command T}
    (h : takeFirst msgid cs = some (c, rest)) :
    c.msgid = msgid ∧ ∃ l₁ l₂, cs = l₁ ++ c :: l₂ ∧ rest = l₁ ++ l₂ := by
  induction cs generalizing rest with
  | nil => cases h
  | cons x xs ih =>
      unfold takeFirst at h
      split at h
      · rename_i hx
        cases h
        exact ⟨hx, [], xs, rfl, rfl⟩
      · obtain ⟨⟨c', rest'⟩, hrec, heq⟩ := Option.map_eq_some_iff.mp h
        cases heq
        obtain ⟨hid, l₁, l₂, rfl, rfl⟩ := ih hrec
        exact ⟨hid, x :: l₁, l₂, rfl, rfl⟩

/-- The search finds a command if there is one with the ID. -/
theorem takeFirst_isSome {msgid : BitVec 64} {cs : List (Command T)} {c : Command T}
    (hc : c ∈ cs) (hid : c.msgid = msgid) : (takeFirst msgid cs).isSome = true := by
  induction cs with
  | nil => cases hc
  | cons x xs ih =>
      unfold takeFirst
      split
      · rfl
      · rename_i hx
        rcases List.mem_cons.mp hc with rfl | hmem
        · exact absurd hid hx
        · simpa using ih hmem

theorem tryFind_eq_some {q q' : BlockingQueue T} {msgid : BitVec 64} {c : Command T}
    (h : q.tryFind msgid = some (c, q')) :
    c.msgid = msgid ∧ q'.status = q.status ∧
      ∃ l₁ l₂, q.queue = l₁ ++ c :: l₂ ∧ q'.queue = l₁ ++ l₂ := by
  obtain ⟨⟨c', rest⟩, htake, heq⟩ := Option.map_eq_some_iff.mp h
  cases heq
  obtain ⟨hid, hsplit⟩ := takeFirst_eq_some htake
  exact ⟨hid, rfl, hsplit⟩

theorem tryFind_isSome {q : BlockingQueue T} {msgid : BitVec 64} {c : Command T}
    (hc : c ∈ q.queue) (hid : c.msgid = msgid) : (q.tryFind msgid).isSome = true := by
  simpa [tryFind] using takeFirst_isSome hc hid

end BlockingQueue

/-! ## `CommQueue` -/

structure CommQueue (T : Type) where
  request : BlockingQueue T
  completion : BlockingQueue T
deriving DecidableEq

namespace CommQueue

/-- The queues of a new context. -/
def init : CommQueue T := ⟨⟨[], .ready⟩, ⟨[], .ready⟩⟩

/-- The push in `pushRequest`. The test of the status before it is another step. -/
def pushRequest (q : CommQueue T) (c : Command T) : CommQueue T :=
  { q with request := q.request.push c }

/-- `setRequestStatus`. -/
def setRequestStatus (q : CommQueue T) (s : QueueStatus) : CommQueue T :=
  { q with request := { q.request with status := s } }

/-- `pushCompletion`. -/
def pushCompletion (q : CommQueue T) (c : Command T) : CommQueue T :=
  { q with completion := q.completion.push c }

/-- `popRequest`, and the pop of `setCompletion`. -/
def popRequest (q : CommQueue T) : Option (Command T × CommQueue T) :=
  q.request.popNoWait.map fun r => (r.1, { q with request := r.2 })

/-- `peekCompletion`, and `waitCompletion` when it does not block. -/
def findCompletion (q : CommQueue T) (msgid : BitVec 64) : Option (Command T × CommQueue T) :=
  (q.completion.tryFind msgid).map fun r => (r.1, { q with completion := r.2 })

theorem popRequest_eq_none {q : CommQueue T} : q.popRequest = none ↔ q.request.queue = [] := by
  simp [popRequest, BlockingQueue.popNoWait_eq_none]

theorem popRequest_eq_some {q q' : CommQueue T} {c : Command T}
    (h : q.popRequest = some (c, q')) :
    q.request.queue = c :: q'.request.queue ∧ q'.request.status = q.request.status ∧
      q'.completion = q.completion := by
  obtain ⟨⟨c', r⟩, hpop, heq⟩ := Option.map_eq_some_iff.mp h
  cases heq
  obtain ⟨hqueue, hstatus⟩ := BlockingQueue.popNoWait_eq_some.mp hpop
  exact ⟨hqueue, hstatus, rfl⟩

theorem findCompletion_eq_some {q q' : CommQueue T} {msgid : BitVec 64} {c : Command T}
    (h : q.findCompletion msgid = some (c, q')) :
    c.msgid = msgid ∧ q'.request = q.request ∧
      ∃ l₁ l₂, q.completion.queue = l₁ ++ c :: l₂ ∧ q'.completion.queue = l₁ ++ l₂ := by
  obtain ⟨⟨c', r⟩, hfind, heq⟩ := Option.map_eq_some_iff.mp h
  cases heq
  obtain ⟨hid, -, hsplit⟩ := BlockingQueue.tryFind_eq_some hfind
  exact ⟨hid, rfl, hsplit⟩

theorem findCompletion_isSome {q : CommQueue T} {msgid : BitVec 64} {c : Command T}
    (hc : c ∈ q.completion.queue) (hid : c.msgid = msgid) :
    (q.findCompletion msgid).isSome = true := by
  simpa [findCompletion] using BlockingQueue.tryFind_isSome hc hid

section Simp
variable (q : CommQueue T) (c : Command T) (s : QueueStatus)

@[simp, grind =] theorem pushRequest_request : (q.pushRequest c).request.queue = q.request.queue ++ [c] := rfl
@[simp, grind =] theorem pushRequest_status : (q.pushRequest c).request.status = q.request.status := rfl
@[simp, grind =] theorem pushRequest_completion : (q.pushRequest c).completion = q.completion := rfl
@[simp, grind =] theorem setRequestStatus_request :
    (q.setRequestStatus s).request.queue = q.request.queue := rfl
@[simp, grind =] theorem setRequestStatus_status : (q.setRequestStatus s).request.status = s := rfl
@[simp, grind =] theorem setRequestStatus_completion :
    (q.setRequestStatus s).completion = q.completion := rfl
@[simp, grind =] theorem pushCompletion_request : (q.pushCompletion c).request = q.request := rfl
@[simp, grind =] theorem pushCompletion_completion :
    (q.pushCompletion c).completion.queue = q.completion.queue ++ [c] := rfl

end Simp

end CommQueue

end Veo
