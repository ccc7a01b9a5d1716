-- SUMMARY: The VE heap while threads allocate, free and load libraries, one request at a time, with the holder of every allocation.
import Veo.ProcHandle.Construct
import Veo.ProcHandle.LoadError
import Veo.Lib.Transition

/-!
# The VE heap

`veo_alloc_mem`, `veo_free_mem` and `veo_load_library` are called by any threads. Each request on
the worker is one step, because `main_mutex` is held for one request at most. `loadLibrary` goes on
with the requests of `loadLibraryError` if the handle is zero and the VE side can report the error.
The history `own` names the holder of every allocation.
-/

namespace Veo

open Transition

/-! ## The calls -/

/-- The helper functions that the heap depends on, and `getVeorunVersion()`. -/
structure VeTable extends HelperFunctions where
  loadLibrary : BitVec 64
  version : Nat

/-- Who holds an allocation. -/
inductive Holder (T : Type) where
  /-- The code that runs on the VE. -/
  | ve
  /-- The VH program, which got it from `veo_alloc_mem`. -/
  | program
  /-- A call of `loadLibraryError`. -/
  | call (t : T)
  | lost
deriving DecidableEq

/-- What the API returns. -/
inductive HeapRet where
  /-- `veo_alloc_mem`, with `*addr` if it is set. -/
  | alloc (rv : Int) (addr : Option (BitVec 64))
  | free (rv : Int)
  | load (handle : BitVec 64)
deriving DecidableEq

/-- The next request of a thread. -/
inductive HeapPc where
  | idle
  /-- The requests of `loadLibraryError`. -/
  | errAlloc
  | errCall (buff : BitVec 64)
  | errRead (buff : BitVec 64)
  | errFree (buff : BitVec 64) (errMsg : List Byte)
  | done (r : HeapRet)
deriving DecidableEq

/-- The buffer of a call of `loadLibraryError`. -/
def HeapPc.buffer : HeapPc → Option (BitVec 64)
  | .errCall buff | .errRead buff | .errFree buff _ => some buff
  | .idle | .errAlloc | .done _ => none

structure HeapSys (T : Type) where
  ve : VeProcess
  pc : T → HeapPc
  /-- An assertion of the VH process has failed. -/
  aborted : Bool
  own : BitVec 64 → Option (Holder T)

variable {T : Type}

/-- At the beginning the allocations are those of the VE code. -/
def HeapSys.init (p : VeProcess) : HeapSys T where
  ve := p
  pc := fun _ => .idle
  aborted := false
  own := fun a => if a ∈ p.live then some .ve else none

/-- A thread calls the API, or makes the next request of its call or returns from it. The others
    are steps of the VE code, and a failure of the worker in somebody else's request. -/
inductive HeapAct (T : Type) where
  | alloc (t : T) (n : Requests)
  | free (t : T) (addr : BitVec 64) (n : Requests)
  /-- With the result of `load_library`, and the memory after it. -/
  | load (t : T) (libname : List Byte) (r : CmdResult) (mem : WordMem 64) (n : Requests)
  | next (t : T) (n : Requests)
  | veAlloc (a : BitVec 64)
  | veFree (a : BitVec 64)
  | veWrite (mem : WordMem 64)
  | fail (after : VeProcess)

/-- `veo_alloc_mem`. -/
def veoAllocMem : Ret → HeapRet
  | .value addr => .alloc (if addr = 0 then -1 else 0) (some addr)
  | _ => .alloc (-2) none

/-- `veo_free_mem`. -/
def veoFreeMem : Ret → HeapRet
  | .value _ => .free 0
  | _ => .free (-1)

/-- `loadLibrary` after the request; `veo_load_library` catches the exception and returns zero. -/
def afterLoad (V : Veorun) (tab : VeTable) : Ret → HeapPc
  | .value handle =>
    if handle = 0 ∧ V.version4 ≤ tab.version then .errAlloc else .done (.load handle)
  | _ => .done (.load 0)

instance (n : Requests) (p : VeProcess) : Decidable (n.AllocFresh p) :=
  inferInstanceAs (Decidable (n.alloc.status = .ok → n.alloc.retval ≠ 0 → n.alloc.retval ∉ p.live))

namespace HeapSys

section Step
variable [DecidableEq T]

def go (s : HeapSys T) (t : T) (p : VeProcess) (pc : HeapPc) : HeapSys T :=
  { s with ve := p, pc := Function.update s.pc t pc }

def setOwn (s : HeapSys T) (a : BitVec 64) (h : Option (Holder T)) : HeapSys T :=
  { s with own := Function.update s.own a h }

/-- `loadLibraryError` allocates its buffer. Whatever it returns, `loadLibrary` returns zero. -/
def errAlloc (tab : VeTable) (s : HeapSys T) (t : T) (n : Requests) : HeapSys T :=
  match s.ve.allocBuff tab.toHelperFunctions n with
  | (.value buff, p) =>
    if buff = 0 then s.go t p (.done (.load 0))
    else (s.go t p (.errCall buff)).setOwn buff (some (.call t))
  | (_, p) => s.go t p (.done (.load 0))

/-- It calls `load_library_err`. -/
def errCall (tab : VeTable) (s : HeapSys T) (t : T) (n : Requests) (buff : BitVec 64) : HeapSys T :=
  let req := s.ve.callLoadErr tab.toHelperFunctions n
  if req.1 < 0 then (s.go t req.2 (.done (.load 0))).setOwn buff (some .lost)
  else s.go t req.2 (.errRead buff)

/-- It reads the text. -/
def errRead (s : HeapSys T) (t : T) (n : Requests) (buff : BitVec 64) : HeapSys T :=
  match s.ve.readMem n buff errMsgLen with
  | (.value ret, errMsg, p) =>
    if toInt32 ret.toNat ≠ 0 then (s.go t p (.done (.load 0))).setOwn buff (some .lost)
    else s.go t p (.errFree buff errMsg)
  | (_, _, p) => { s with ve := p, aborted := true }

/-- It frees the buffer. -/
def errFree (tab : VeTable) (s : HeapSys T) (t : T) (n : Requests) (buff : BitVec 64) : HeapSys T :=
  match s.ve.freeBuff tab.toHelperFunctions n buff with
  | (.value _, p) => (s.go t p (.done (.load 0))).setOwn buff none
  | (_, p) => (s.go t p (.done (.load 0))).setOwn buff (some .lost)

def next (tab : VeTable) (s : HeapSys T) (t : T) (n : Requests) : Option (HeapSys T) :=
  match s.pc t with
  | .idle => none
  | .errAlloc => some (s.errAlloc tab t n)
  | .errCall buff => some (s.errCall tab t n buff)
  | .errRead buff => some (s.errRead t n buff)
  | .errFree buff _ => some (s.errFree tab t n buff)
  | .done _ => some (s.go t s.ve .idle)

/-- `veo_alloc_mem`, up to its return. -/
def allocMem (tab : VeTable) (s : HeapSys T) (t : T) (n : Requests) : HeapSys T :=
  match s.ve.allocBuff tab.toHelperFunctions n with
  | (.value addr, p) =>
    let s' := s.go t p (.done (veoAllocMem (.value addr)))
    if addr = 0 then s' else s'.setOwn addr (some .program)
  | (r, p) => s.go t p (.done (veoAllocMem r))

/-- `veo_free_mem`, up to its return. -/
def freeMem (tab : VeTable) (s : HeapSys T) (t : T) (addr : BitVec 64) (n : Requests) : HeapSys T :=
  match s.ve.freeBuff tab.toHelperFunctions n addr with
  | (.value ret, p) => (s.go t p (.done (veoFreeMem (.value ret)))).setOwn addr none
  | (r, p) => s.go t p (.done (veoFreeMem r))

/-- `veo_load_library`, up to the next request or its return. -/
def load (V : Veorun) (tab : VeTable) (s : HeapSys T) (t : T) (libname : List Byte)
    (r : CmdResult) (mem : WordMem 64) (n : Requests) : HeapSys T :=
  if libname.length > symnameLenMax then
    s.go t s.ve (.done (.load 0))
  else
    let req := s.ve.doOnContext tab.loadLibrary r (fun p => { p with mem := mem }) n.lost
    s.go t req.2 (afterLoad V tab req.1)

/-- A thread is in one call at a time. The program calls `veo_free_mem` only with an address that it
    holds, or with zero; what the VE does with another one is not said. -/
def step (V : Veorun) (tab : VeTable) (s : HeapSys T) (a : HeapAct T) : Option (HeapSys T) :=
  if s.aborted then
    none
  else
    match a with
    | .alloc t n => if s.pc t = .idle then some (s.allocMem tab t n) else none
    | .free t addr n =>
      if s.pc t = .idle ∧ (addr = 0 ∨ s.own addr = some .program) then
        some (s.freeMem tab t addr n)
      else
        none
    | .load t libname r mem n =>
      if s.pc t = .idle then some (s.load V tab t libname r mem n) else none
    | .next t n => s.next tab t n
    | .veAlloc a =>
      if a = 0 ∨ a ∈ s.ve.live then none
      else some ({ s with ve := { s.ve with live := insert a s.ve.live } }.setOwn a (some .ve))
    | .veFree a =>
      if s.own a = some .ve then
        some ({ s with ve := { s.ve with live := s.ve.live.erase a } }.setOwn a none)
      else
        none
    | .veWrite mem => some { s with ve := { s.ve with mem := mem } }
    | .fail after => some { s with ve := { after with able := false } }

/-- The allocator of the VE does not return an address that is in use. -/
def fresh (s : HeapSys T) : HeapAct T → Bool
  | .alloc _ n => decide (n.AllocFresh s.ve)
  | .next t n => decide (s.pc t = .errAlloc → n.AllocFresh s.ve)
  | _ => true

/-- The step leaves a buffer behind: `load_library_err` answers with a negative value, or cannot be
    called and `rv` happens to be negative, or the buffer cannot be freed. -/
def leaks (tab : VeTable) (s : HeapSys T) : HeapAct T → Bool
  | .next t n =>
    match s.pc t with
    | .errCall _ =>
      decide ((if tab.loadLibraryErr = 0 then n.indeterminate else n.loadErr.retval.toInt) < 0)
    | .errFree .. => decide (tab.freeBuff = 0)
    | _ => false
  | _ => false

/-- How many steps of a run leave a buffer behind; the run ends where a step is not enabled. -/
def leakCount (V : Veorun) (tab : VeTable) (s : HeapSys T) : List (HeapAct T) → Nat
  | [] => 0
  | a :: as =>
    match s.step V tab a with
    | some s' => (if s.leaks tab a then 1 else 0) + s'.leakCount V tab as
    | none => 0

end Step

/-! ## The requests of one call -/

section Alone
variable [DecidableEq T] {V : Veorun} {tab : VeTable} {s m : HeapSys T} {t : T} {n : Requests}
  {r : VeProcess.Ended × VeProcess} {buff : BitVec 64}

/-- The thread makes the next requests of its call with nothing in between, and the call ends
    with `r`. -/
def Ends (V : Veorun) (tab : VeTable) (s : HeapSys T) (t : T) (n : Requests)
    (r : VeProcess.Ended × VeProcess) : Prop :=
  ∃ k s', runList (step V tab) (fun _ _ => true) s (List.replicate k (.next t n)) = some s' ∧
    s'.ve = r.2 ∧
    if r.1 = .aborted then s'.aborted = true
    else s'.aborted = false ∧ s'.pc t = .done (.load 0)

theorem Ends.cons (halive : s.aborted = false) (hnext : s.next tab t n = some m)
    (h : m.Ends V tab t n r) : s.Ends V tab t n r := by
  obtain ⟨k, s', hrun, hend⟩ := h
  refine ⟨k + 1, s', ?_, hend⟩
  simp [List.replicate_succ, runList, step, halive, hnext, hrun]

/-- The call has returned, and the holder of an address may have changed. -/
theorem ends_done {e : VeProcess.Ended} {p : VeProcess} (halive : s.aborted = false)
    (he : e ≠ .aborted) :
    (s.go t p (.done (.load 0))).Ends V tab t n (e, p) ∧
      ∀ a h, ((s.go t p (.done (.load 0))).setOwn a h).Ends V tab t n (e, p) := by
  have hpc : (s.go t p (.done (.load 0))).pc t = .done (.load 0) := Function.update_self _ _ _
  have hend : if e = .aborted then s.aborted = true else s.aborted = false ∧
      (s.go t p (.done (.load 0))).pc t = .done (.load 0) := by
    rw [if_neg he]
    exact ⟨halive, hpc⟩
  exact ⟨⟨0, _, rfl, rfl, hend⟩, fun a h => ⟨0, _, rfl, rfl, hend⟩⟩

theorem ends_errFree {errMsg : List Byte} (hpc : s.pc t = .errFree buff errMsg)
    (halive : s.aborted = false) (bytes : List Byte) :
    s.Ends V tab t n (match s.ve.freeBuff tab.toHelperFunctions n buff with
      | (.value _, p) => (.returned 0 bytes, p)
      | (_, p) => (.threw, p)) := by
  have hnext : s.next tab t n = some (s.errFree tab t n buff) := by simp only [next, hpc]
  refine .cons halive hnext ?_
  unfold errFree
  obtain ⟨ret, p⟩ := s.ve.freeBuff tab.toHelperFunctions n buff
  cases ret with
  | value ret =>
      dsimp only
      exact (ends_done halive (by simp)).2 buff none
  | _ =>
      dsimp only
      exact (ends_done halive (by simp)).2 buff (some .lost)

theorem ends_errRead (hpc : s.pc t = .errRead buff) (halive : s.aborted = false) (size : Nat) :
    s.Ends V tab t n (s.ve.collect tab.toHelperFunctions n buff size) := by
  have hnext : s.next tab t n = some (s.errRead t n buff) := by simp only [next, hpc]
  refine .cons halive hnext ?_
  unfold errRead VeProcess.collect
  obtain ⟨ret, errMsg, p⟩ := s.ve.readMem n buff errMsgLen
  cases ret with
  | value ret =>
      dsimp only
      split
      · exact (ends_done halive (by simp)).2 buff (some .lost)
      · have hfree : (s.go t p (.errFree buff errMsg)).pc t = .errFree buff errMsg :=
          Function.update_self _ _ _
        exact ends_errFree hfree halive _
  | _ => exact ⟨0, _, rfl, rfl, rfl⟩

theorem ends_errCall (hpc : s.pc t = .errCall buff) (halive : s.aborted = false) (size : Nat) :
    s.Ends V tab t n
      (let (rv, p) := s.ve.callLoadErr tab.toHelperFunctions n
       if rv < 0 then (.returned (-1) [], p)
       else p.collect tab.toHelperFunctions n buff size) := by
  have hnext : s.next tab t n = some (s.errCall tab t n buff) := by simp only [next, hpc]
  refine .cons halive hnext ?_
  unfold errCall
  obtain ⟨rv, p⟩ := s.ve.callLoadErr tab.toHelperFunctions n
  dsimp only
  split
  · exact (ends_done halive (by simp)).2 buff (some .lost)
  · have hread : (s.go t p (.errRead buff)).pc t = .errRead buff := Function.update_self _ _ _
    exact ends_errRead hread halive size

/-- The requests of one call with nothing in between are the function `loadLibraryError`. -/
theorem ends_loadLibraryError (hpc : s.pc t = .errAlloc) (halive : s.aborted = false)
    (size : Nat) :
    s.Ends V tab t n (s.ve.loadLibraryError tab.toHelperFunctions n size) := by
  have hnext : s.next tab t n = some (s.errAlloc tab t n) := by simp only [next, hpc]
  refine .cons halive hnext ?_
  unfold errAlloc VeProcess.loadLibraryError
  obtain ⟨ret, p⟩ := s.ve.allocBuff tab.toHelperFunctions n
  cases ret with
  | value buff =>
      dsimp only
      split
      · exact (ends_done halive (by simp)).1
      · have hcall : ((s.go t p (.errCall buff)).setOwn buff (some (.call t))).pc t =
            .errCall buff := Function.update_self _ _ _
        exact ends_errCall hcall halive size
  | _ =>
      dsimp only
      exact (ends_done halive (by simp)).1

end Alone

end HeapSys

end Veo
