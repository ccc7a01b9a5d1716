-- SUMMARY: The symbol lookup of a VE process: getSym with its cache, over the worker of the process.
import Veo.ThreadContext.Internal

/-!
# Symbols of a VE process

`getSym` looks a symbol up in a cache under `sym_mtx`, and asks the VE by `doOnContext` on the
worker if it is not there. The worker serves other callers at the same time. What `find_sym`
answers on the VE changes when libraries are loaded: unresolved symbols may be resolved.
-/

namespace Veo

/-- The key of the cache: the handle of a library, and the bytes of a name. -/
abbrev SymKey : Type := BitVec 64 × List Byte

/-- `VEO_SYMNAME_LEN_MAX`. -/
def symnameLenMax : Nat := 255

/-- Where a caller of `getSym` is. -/
inductive SymPc where
  | idle
  /-- The lookup: the lock, the search, and the unlock. -/
  | lockFind (key : SymKey)
  | find (key : SymKey)
  | unlockFound (key : SymKey)
  | unlockMissing (key : SymKey)
  /-- The read of the entry that was found, after the unlock. -/
  | read (key : SymKey)
  /-- `doOnContext`: the call, and all of its steps. -/
  | call (key : SymKey)
  | remote (key : SymKey)
  /-- The insertion: the lock, the assignment, and the unlock. -/
  | lockInsert (key : SymKey) (symaddr : BitVec 64)
  | insert (key : SymKey) (symaddr : BitVec 64)
  | unlockInsert (key : SymKey) (symaddr : BitVec 64)
  | returned (key : SymKey) (symaddr : BitVec 64)
  | threw
deriving DecidableEq

/-- The next step of `getSym` after `doOnContext`: an address of zero is returned at once, and an
    exception is not caught. -/
def SymPc.afterRemote (key : SymKey) : Ret → SymPc
  | .value symaddr => if symaddr = 0 then .returned key symaddr else .lockInsert key symaddr
  | _ => .threw

/-- A process with the callers of `getSym`. The field `since` is the history. -/
structure ProcHandle (T : Type) where
  worker : Sys T
  symName : SymKey → Option (BitVec 64)
  symMtx : Option T
  sym : T → SymPc
  /-- What `find_sym` answers on the VE. -/
  findSym : SymKey → BitVec 64
  /-- What it has answered since the last call of `getSym` of a caller began. -/
  since : T → List (SymKey → BitVec 64)

variable {T : Type}

/-- A process whose worker has the VE thread `v`, and whose libraries resolve `findSym`. -/
def ProcHandle.init (v : VeThread) (findSym : SymKey → BitVec 64) : ProcHandle T where
  worker := .init v
  symName := fun _ => none
  symMtx := none
  sym := fun _ => .idle
  findSym := findSym
  since := fun _ => []

/-- The actions of a process: a caller starts `getSym` or takes its next step in it, the worker
    or another caller of the worker takes a step, or symbols get resolved on the VE. -/
inductive ProcAct (T : Type) where
  | getSym (t : T) (libhdl : BitVec 64) (symname : List Byte)
  | next (t : T)
  | worker (a : Act T)
  | resolve (syms : List (SymKey × BitVec 64))

namespace ProcHandle

/-- The VE function that the pseudo thread runs for a caller of `getSym` answers as `find_sym`
    does. The condition is on the environment of the step. -/
def answers (P : Platform) (p : ProcHandle T) (env : Env) : Bool :=
  match p.worker.pseudo, p.worker.command with
  | .run, some c =>
    match p.sym c.caller, c.kind with
    | .remote key, .handler f =>
      c.call != p.worker.calls c.caller ||
        match f.exec P env p.worker.thread with
        | .ok o => o.result.status != .ok || o.result.retval == p.findSym key
        | .error _ => true
    | _, _ => true
  | _, _ => true

/-- Symbols get resolved; the ones that were resolved before stay as they are. -/
def resolve (p : ProcHandle T) (syms : List (SymKey × BitVec 64)) : ProcHandle T :=
  let findSym key := if p.findSym key = 0 then (syms.lookup key).getD 0 else p.findSym key
  { p with findSym := findSym, since := fun t => p.since t ++ [findSym] }

section Steps
variable [DecidableEq T]

def goSym (p : ProcHandle T) (t : T) (pc : SymPc) : ProcHandle T :=
  { p with sym := Function.update p.sym t pc }

/-- `sym_mtx.lock()`. -/
def lockSym (p : ProcHandle T) (t : T) (pc : SymPc) : Option (ProcHandle T) :=
  if p.symMtx = none then some { p.goSym t pc with symMtx := some t } else none

/-- `sym_mtx.unlock()`. -/
def unlockSym (p : ProcHandle T) (t : T) (pc : SymPc) : ProcHandle T :=
  { p.goSym t pc with symMtx := none }

/-- The beginning of `getSym`: the length of the name is checked. -/
def getSym (p : ProcHandle T) (t : T) (libhdl : BitVec 64) (symname : List Byte) :
    Option (ProcHandle T) :=
  if p.sym t = .idle ∧ p.worker.pc t = .idle then
    some { p.goSym t
      (if symname.length > symnameLenMax then .threw else .lockFind (libhdl, symname)) with
      since := Function.update p.since t [p.findSym] }
  else
    none

/-- One step of the caller `t` in `getSym`. The VE function `find_sym` is at `func`. -/
def next (func : BitVec 64) (p : ProcHandle T) (t : T) : Option (ProcHandle T) :=
  match p.sym t with
  | .idle => none
  | .lockFind key => p.lockSym t (.find key)
  | .find key =>
    some (p.goSym t (if (p.symName key).isSome then .unlockFound key else .unlockMissing key))
  | .unlockFound key => some (p.unlockSym t (.read key))
  | .unlockMissing key => some (p.unlockSym t (.call key))
  | .read key => (p.symName key).map fun symaddr => p.goSym t (.returned key symaddr)
  | .call key =>
    (p.worker.startCall t (.doOnContext false func)).map fun worker =>
      { p.goSym t (.remote key) with worker := worker }
  | .remote key =>
    (p.worker.callerStep t).map fun worker =>
      match p.worker.pc t with
      | .done r => { p.goSym t (.afterRemote key r) with worker := worker }
      | _ => { p with worker := worker }
  | .lockInsert key symaddr => p.lockSym t (.insert key symaddr)
  | .insert key symaddr =>
    some { p.goSym t (.unlockInsert key symaddr) with
      symName := Function.update p.symName key (some symaddr) }
  | .unlockInsert key symaddr => some (p.unlockSym t (.returned key symaddr))
  | .returned .. | .threw => some (p.goSym t .idle)

/-- A step of the worker, or of a caller that is not in `getSym`. The worker is private to the
    process: only internal calls use it. -/
def workerStep (P : Platform) (p : ProcHandle T) : Act T → Option (ProcHandle T)
  | .start t op =>
    if p.sym t = .idle ∧ op.internal = true then
      (p.worker.startCall t op).map fun worker => { p with worker := worker }
    else
      none
  | .caller t =>
    if p.sym t = .idle then (p.worker.callerStep t).map fun worker => { p with worker := worker }
    else none
  | .pseudo env =>
    if p.answers P env then
      (p.worker.pseudoStep P env).map fun worker => { p with worker := worker }
    else
      none

def step (P : Platform) (func : BitVec 64) (p : ProcHandle T) : ProcAct T → Option (ProcHandle T)
  | .getSym t libhdl symname => p.getSym t libhdl symname
  | .next t => p.next func t
  | .worker a => p.workerStep P a
  | .resolve syms => some (p.resolve syms)

end Steps

end ProcHandle

end Veo
