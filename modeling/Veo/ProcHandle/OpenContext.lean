-- SUMMARY: Opening a context: its attributes, the CPU and the stack size that reach the VE, and what the C API returns.
import Veo.Handlers.Transfers
import Veo.ProcHandle.HelperCalls
import Veo.ThreadContext.Collect

/-!
# Opening a context

`veo_context_open_with_attr` has the VE process create a thread with the attributes of an object
that the program has set before. `ProcHandle::openContext` adds the CPU and makes a request on the
worker. The result of the request is the address of the new context or the negative value of
`errno`.
-/

namespace Veo

open Bytes Transition

/-! ## Attributes -/

/-- `VEO_STACK_MIN` and `VEO_DEFAULT_STACK_SIZE`. -/
def stackMin : Nat := 4 * 1024 * 1024
def defaultStackSize : BitVec 64 := 0x4000000

/-- `ThreadContextAttr`. No stack is smaller than the minimum. -/
structure ThreadContextAttr where
  stacksize : BitVec 64
  le : stackMin ≤ stacksize.toNat

namespace ThreadContextAttr

/-- The constructor. -/
def new : ThreadContextAttr := ⟨defaultStackSize, by decide⟩

def setStacksize (attr : ThreadContextAttr) (stackSz : BitVec 64) :
    Except Stop ThreadContextAttr :=
  if h : stackSz.toNat < stackMin then
    .error (.thrown "invalid stack size of VEO context" Errno.einval)
  else
    .ok { attr with stacksize := stackSz, le := Nat.not_lt.mp h }

end ThreadContextAttr

/-- What a function of the C API returns, and the value that it sets `errno` to. -/
structure Api (α : Type) where
  value : α
  errno : Option Int
deriving DecidableEq

/-- `veo_set_thr_ctxt_stacksize`, with the object that it leaves. -/
def veoSetThrCtxtStacksize (tca : Option ThreadContextAttr) (stackSz : BitVec 64) :
    Api Int × Option ThreadContextAttr :=
  match tca with
  | none => (⟨-1, some Errno.einval⟩, none)
  | some attr =>
    match attr.setStacksize stackSz with
    | .ok attr => (⟨0, none⟩, some attr)
    | .error (.thrown _ err) => (⟨-1, some err⟩, some attr)
    | .error _ => (⟨-1, none⟩, some attr)

/-- `veo_get_thr_ctxt_stacksize`, with the value that it stores. The second argument may be
    NULL. -/
def veoGetThrCtxtStacksize (tca : Option ThreadContextAttr) (stackSz : Bool) :
    Api Int × Option (BitVec 64) :=
  match tca with
  | none => (⟨-1, some Errno.einval⟩, none)
  | some attr =>
    if stackSz then (⟨0, none⟩, some attr.stacksize) else (⟨-1, some Errno.einval⟩, none)

/-- A new object after calls of `veo_set_thr_ctxt_stacksize`. -/
def ThreadContextAttr.after (sizes : List (BitVec 64)) : Option ThreadContextAttr :=
  sizes.foldl (fun tca stackSz => (veoSetThrCtxtStacksize tca stackSz).2) (some .new)

/-- The size that the last successful call has set. -/
def lastStacksize (sizes : List (BitVec 64)) : BitVec 64 :=
  (sizes.filter (stackMin ≤ ·.toNat)).getLastD defaultStackSize

/-! ## The attributes after any calls -/

namespace ThreadContextAttr

theorem foldl_set (sizes : List (BitVec 64)) (attr : ThreadContextAttr) :
    ∃ attr', sizes.foldl (fun tca stackSz => (veoSetThrCtxtStacksize tca stackSz).2) (some attr) =
        some attr' ∧
      attr'.stacksize = (sizes.filter (stackMin ≤ ·.toNat)).getLastD attr.stacksize := by
  induction sizes generalizing attr with
  | nil => exact ⟨attr, rfl, rfl⟩
  | cons stackSz sizes ih =>
      rw [List.foldl_cons, List.filter_cons]
      by_cases hle : stackMin ≤ stackSz.toNat
      · have hset : veoSetThrCtxtStacksize (some attr) stackSz = (⟨0, none⟩, some ⟨stackSz, hle⟩) := by
          simp only [veoSetThrCtxtStacksize, setStacksize, dif_neg (Nat.not_lt.mpr hle)]
        obtain ⟨attr', hfold, hlast⟩ := ih ⟨stackSz, hle⟩
        refine ⟨attr', by rw [hset]; exact hfold, ?_⟩
        rw [if_pos (decide_eq_true hle), List.getLastD_cons]
        exact hlast
      · have hset : veoSetThrCtxtStacksize (some attr) stackSz =
            (⟨-1, some Errno.einval⟩, some attr) := by
          simp only [veoSetThrCtxtStacksize, setStacksize, dif_pos (Nat.not_le.mp hle)]
        obtain ⟨attr', hfold, hlast⟩ := ih attr
        refine ⟨attr', by rw [hset]; exact hfold, ?_⟩
        rw [if_neg (by simpa using hle)]
        exact hlast

theorem after_eq_some (sizes : List (BitVec 64)) :
    ∃ attr, after sizes = some attr ∧ attr.stacksize = lastStacksize sizes :=
  foldl_set sizes .new

end ThreadContextAttr

/-- `veo_get_thr_ctxt_stacksize` stores the size that the last successful call has set. -/
theorem veoGetThrCtxtStacksize_after (sizes : List (BitVec 64)) :
    veoGetThrCtxtStacksize (ThreadContextAttr.after sizes) true =
      (⟨0, none⟩, some (lastStacksize sizes)) := by
  obtain ⟨attr, hattr, hlast⟩ := ThreadContextAttr.after_eq_some sizes
  rw [hattr, ← hlast]
  rfl

/-! ## `openContext` -/

/-- What `openContext` meets in the process: the version and the addresses of the helper functions,
    the numbers of threads, the memory of the program, the address of the local variable `attr_v3`,
    and what unset members hold. -/
structure OpenEnv where
  version : Nat
  createThread : BitVec 64
  createThreadWithAttr : BitVec 64
  tidCounter : Int
  numChildThreads : Int
  vh : FlatMem
  frame : Nat
  unset : Unset

/-- The request that `openContext` makes by `_callOpenContext`: the address of the function, the
    arguments object, and the buffer that it refers to, with its contents. -/
structure OpenRequest where
  addr : BitVec 64
  args : CallArgs
  buffer : Nat
  contents : List Byte

/-- What a function of the C API comes to: it returns at once, or it makes a request. -/
inductive Opening where
  | returned (r : Api (BitVec 64))
  | requested (q : OpenRequest)

def maxCpuNum : Int := 8

namespace OpenEnv

/-- The CPU of the new thread: the one of the worker if there are many threads, and any CPU
    otherwise. -/
def cpu (w : OpenEnv) : Int :=
  if w.tidCounter > maxCpuNum - 1 then w.numChildThreads.tmod maxCpuNum else -1

section Open
variable (A : AttributeVer3)

/-- The stores to `attr_v3`. -/
def storeAttr (w : OpenEnv) (attr : ThreadContextAttr) : FlatMem :=
  (w.vh.write (w.frame + A.cpu) (ofNatLE 4 (BitVec.ofInt 32 w.cpu).toNat)).write
    (w.frame + A.stackSz) (ofNatLE 8 attr.stacksize.toNat)

/-- `attr_v3`. -/
def attrV3 (w : OpenEnv) (attr : ThreadContextAttr) : ThreadAttribute A (w.storeAttr A attr) where
  addr := w.frame
  cpu := BitVec.ofInt 32 w.cpu
  stackSz := attr.stacksize
  cpuStored := by
    have hdisjoint := A.disjoint
    rw [storeAttr, FlatMem.read_write_of_disjoint _ (by rw [length_ofNatLE]; omega)]
    have hsame := FlatMem.read_write_same w.vh (w.frame + A.cpu)
      (ofNatLE 4 (BitVec.ofInt 32 w.cpu).toNat)
    rwa [length_ofNatLE] at hsame
  stackSzStored := by
    have hsame := FlatMem.read_write_same
      (w.vh.write (w.frame + A.cpu) (ofNatLE 4 (BitVec.ofInt 32 w.cpu).toNat))
      (w.frame + A.stackSz) (ofNatLE 8 attr.stacksize.toNat)
    rwa [length_ofNatLE] at hsame

/-- `openContext`, up to its request. -/
def openContext (w : OpenEnv) : Except Stop OpenRequest := do
  let call : HelperCall A w.vh := .createThread (BitVec.ofInt 32 w.cpu)
  let args ← call.args w.unset
  return { addr := w.createThread, args := args, buffer := w.frame, contents := [] }

/-- `openContext` with attributes, up to its request. -/
def openContextWithAttr (w : OpenEnv) (attr : ThreadContextAttr) : Except Stop OpenRequest := do
  let vh := w.storeAttr A attr
  let call : HelperCall A vh := .createThreadWithAttr (w.attrV3 A attr)
  let args ← call.args w.unset
  return { addr := w.createThreadWithAttr, args := args, buffer := w.frame,
           contents := vh.read w.frame A.size }

/-! ## The C API -/

/-- The return of `veo_context_open` and `veo_context_open_with_attr`, when the call on the worker
    has returned or thrown: a negative address is the negative value of `errno`. -/
def toCHandle : Ret → Api (BitVec 64)
  | .value ctx => if ctx.toInt < 0 then ⟨0, some (toInt32 (-ctx.toInt))⟩ else ⟨ctx, none⟩
  | _ => ⟨0, some Errno.enosys⟩

/-- `veo_context_open`. -/
def veoContextOpen (w : OpenEnv) : Except Stop Opening := (w.openContext A).map .requested

/-- `veo_context_open_with_attr`, where the version 3 of the helper functions is `version3`. The
    process or the attributes may be NULL. -/
def veoContextOpenWithAttr (version3 : Nat) (proc : Option OpenEnv)
    (tca : Option ThreadContextAttr) : Except Stop Opening :=
  match proc, tca with
  | none, _ | _, none => .ok (.returned ⟨0, some Errno.einval⟩)
  | some w, some attr =>
    if w.version < version3 then .ok (.returned ⟨0, some Errno.enosys⟩)
    else (w.openContextWithAttr A attr).map .requested

end Open

theorem cpu_range {w : OpenEnv} (hnum : 0 ≤ w.numChildThreads) : -1 ≤ w.cpu ∧ w.cpu < maxCpuNum := by
  unfold cpu maxCpuNum
  split
  · rw [Int.tmod_eq_emod_of_nonneg hnum]
    omega
  · omega

end OpenEnv

/-! ## The request on the worker -/

namespace OpenRequest

/-- The environment in which the request is run. The arguments object and its buffer are as the
    caller has left them, what the driver reports as sent is sent, a result of `clone` is an `int`,
    and the address of a context is not negative. -/
structure Meets (q : OpenRequest) (env : Env) : Prop where
  args : env.args = q.args
  buffer : env.vh.read q.buffer q.contents.length = q.contents
  sends : Sends env.send
  clone : -2 ^ 31 < env.clone ∧ env.clone < 2 ^ 31
  newctx : 0 ≤ env.newctx.toInt

section Run
variable {T : Type}

/-- The worker is used by internal calls, and the call `o` makes the request. Its caller keeps the
    arguments and their buffer until it has the result. -/
def Carried (q : OpenRequest) (o : T × Nat) (s : Sys T) : Act T → Prop
  | .start _ op => op.internal = true
  | .caller _ => True
  | .pseudo env => s.pseudo = .run → ∀ c, s.command = some c → c.owner = o → q.Meets env

theorem Carried.internal {q : OpenRequest} {o : T × Nat} {s : Sys T} {a : Act T}
    (h : q.Carried o s a) : Internal s a := by
  cases a with
  | start t op => exact h
  | caller t => trivial
  | pseudo env => trivial

/-- If the image of the arguments is sent, the VE thread enters the function and finds them. -/
def Enters (q : OpenRequest) (received : Machine → Prop) (env : Env) (t : VeThread) : Prop :=
  ¬ SendFails env t → ∃ s, doCall q.addr env env.machine t = .ok s ∧
    s.machine.regs sr12 = q.addr ∧ received s.machine

variable [DecidableEq T]

/-- How the call `o`, which makes the request, ends in the state `s` of the worker, and what the
    C API returns then. -/
inductive Ends (P : Platform) (q : OpenRequest) (received : Machine → Prop) (v : VeThread)
    (o : T × Nat) (s : Sys T) : Api (BitVec 64) → Prop where
  /-- The worker does not run the request. -/
  | unrun (h : s.Unrun o) : Ends P q received v o s ⟨0, some Errno.enosys⟩
  /-- The request was run in some step of the run. -/
  | ran (s₁ s₂ : Sys T) (env : Env) (b : Ticket T) (out : Outcome)
      (hbefore : Run (Sys.step P) (q.Carried o) (Sys.init v) s₁)
      (hstep : s₁.step P (.pseudo env) = some s₂)
      (hafter : Run (Sys.step P) (q.Carried o) s₂ s)
      (hruns : s₁.RunsAs P env (b, out.result)) (howner : b.owner = o)
      (hexec : Handler.exec P (.callOpenContext q.addr) env s₁.thread = .ok out)
      (henters : q.Enters received env s₁.thread) :
      Ends P q received v o s
        (if env.clone < 0 then ⟨0, some (-env.clone)⟩ else ⟨env.newctx, none⟩)

variable {P : Platform} {q : OpenRequest} {received : Machine → Prop} {v : VeThread}
  {s₀ s : Sys T} {t : T}

omit [DecidableEq T] in
/-- The result of an open-context command that returns. -/
theorem exec_callOpenContext_result {addr : BitVec 64} {env : Env} {t : VeThread} {o : Outcome}
    (h : Handler.exec P (.callOpenContext addr) env t = .ok o) :
    o.result = ⟨if env.clone < 0 then toWord env.clone else env.newctx, .ok⟩ := by
  obtain ⟨s, -, h₁⟩ := Except.bind_eq_ok.mp h
  obtain ⟨req, -, h₂⟩ := Except.bind_eq_ok.mp h₁
  obtain ⟨tid, htid, h₃⟩ := Except.bind_eq_ok.mp h₂
  obtain ⟨r, -, h₄⟩ := Except.bind_eq_ok.mp h₃
  obtain ⟨-, rfl⟩ := Except.ite_eq_ok.mp htid
  split at h₄
  · cases h₄
  · cases h₄
    rfl

omit [DecidableEq T] in
/-- What the C API makes of this result. -/
theorem Meets.toCHandle_eq {env : Env} (h : q.Meets env) :
    OpenEnv.toCHandle (.value (if env.clone < 0 then toWord env.clone else env.newctx)) =
      if env.clone < 0 then ⟨0, some (-env.clone)⟩ else ⟨env.newctx, none⟩ := by
  obtain ⟨hlow, hhigh⟩ := h.clone
  by_cases hneg : env.clone < 0
  · have hword : (toWord env.clone).toInt = env.clone := by
      rw [toWord, BitVec.toInt_ofInt]
      exact Int.bmod_eq_of_le (by omega) (by omega)
    simp only [if_pos hneg, OpenEnv.toCHandle, hword]
    rw [toInt32_eq_self (by omega) (by omega)]
  · simp only [if_neg hneg, OpenEnv.toCHandle, if_neg (Int.not_lt.mpr h.newctx)]

/-- A call that makes the request ends in one of these ways. -/
theorem ends_of_done (h₀ : Run (Sys.step P) (q.Carried (t, s₀.calls t)) (Sys.init v) s₀)
    (h : Run (Sys.step P) (q.Carried (t, s₀.calls t)) s₀ s) (hleft : s.IdsLeft)
    (hpc : s₀.pc t = .test (.callOpenContext q.addr) (.collect .doOnContext))
    (hsame : s.calls t = s₀.calls t) {r : Ret} (hdone : s.pc t = .done r)
    (henters : ∀ env u, q.Meets env → q.Enters received env u) :
    q.Ends P received v (t, s₀.calls t) s (OpenEnv.toCHandle r) := by
  have hall := h₀.trans h
  have hr : Reachable P s := ⟨v, hall.reaches⟩
  have hat := (atCall_of_run (h₀.mono fun _ _ => Carried.internal)
    (h.mono fun _ _ => Carried.internal) hleft hpc).2 hsame
  rw [hdone] at hat
  obtain ⟨st, rv, hans, rfl⟩ := hat
  rw [hsame] at hans
  cases hans with
  | refused hnone hrefuses => exact .unrun fun x hx => hnone x.1 (hr.pipeline.ran_accepted hx)
  | dropped b hb howner hkind => exact .unrun (howner ▸ hr.unrun_of_dropped hb)
  | ran b r hb howner hkind =>
      rcases ran_origin hall hb with hfirst | ⟨s₁, env, s₂, hbefore, hg, hstep, hafter, hruns⟩
      · cases hfirst
      · obtain ⟨c, hcmd, hticket⟩ := hruns.command
        have hmeets : q.Meets env :=
          hg hruns.run c hcmd ((congrArg Ticket.owner hticket).trans howner)
        rcases hruns.result with ⟨hclose, -⟩ | ⟨f, out, hf, hexec, hresult⟩
        · cases hclose.symm.trans hkind
        · cases hf.symm.trans hkind
          dsimp only at hresult
          subst hresult
          rw [exec_callOpenContext_result hexec]
          simp only [Waiter.returns, if_true, Option.getD_some]
          rw [hmeets.toCHandle_eq]
          exact .ran s₁ s₂ env b out hbefore hstep hafter hruns howner hexec (henters env _ hmeets)

end Run

end OpenRequest

/-! ## Contexts that are opened -/

namespace OpenEnv

section Opened
variable {T : Type} [DecidableEq T] {P : Platform} {A : AttributeVer3} {v : VeThread}

/-- The VE thread finds the CPU in the first register. -/
def CpuReceived (w : OpenEnv) (m : Machine) : Prop :=
  (m.regs 0).toInt = (BitVec.ofInt 32 w.cpu).toInt

/-- The VE thread finds the CPU and the stack size in the record that the first register points
    to. -/
def AttrReceived (A : AttributeVer3) (w : OpenEnv) (stackSz : BitVec 64) (m : Machine) : Prop :=
  let record := m.ve.read (m.regs 0) A.size
  toNatLE (slice record A.cpu 4) = (BitVec.ofInt 32 w.cpu).toNat ∧
    toNatLE (slice record A.stackSz 8) = stackSz.toNat

/-- A VE thread that enters the function of a request finds what the call has passed. -/
theorem enters_of_received {q : OpenRequest} {received : Machine → Prop} {env : Env} {t : VeThread}
    (hmeets : q.Meets env) (u : Unset) (c : HelperCall A env.vh) (hshort : c.Short)
    (hargs : c.args u = .ok q.args) (hreceived : ∀ m, c.Received m → received m) :
    q.Enters received env t := by
  intro hsends
  obtain ⟨ca, args, hca, hset, hsmall, hfinds⟩ := HelperCall.args_of_short u hshort
  cases hca.symm.trans hargs
  rw [← hmeets.args] at hset
  have hzero (ca : CallArgs) (sp : BitVec 64) (hsetup : env.args.setup env.vh t.veSp = .ok (ca, sp))
      (hin : ca.copiedIn = true) : (env.send ca.stackTop ca.stackBuf env.machine.ve).1 = 0 := by
    by_contra hne
    exact hsends ⟨ca, sp, hsetup, hin, hne⟩
  obtain ⟨s, hdo, hentered⟩ :=
    doCall_entered (m := env.machine) q.addr env t hset hsmall hmeets.sends hzero
  exact ⟨s, hdo, hentered.func, hreceived _ (hfinds _ s hentered)⟩

/-- The record of the caller, in the memory of a step in which its buffer is unchanged. -/
def attrAt (A : AttributeVer3) (w : OpenEnv) (attr : ThreadContextAttr) {vh : FlatMem}
    (h : vh.read w.frame A.size = (w.storeAttr A attr).read w.frame A.size) :
    ThreadAttribute A vh where
  addr := w.frame
  cpu := BitVec.ofInt 32 w.cpu
  stackSz := attr.stacksize
  cpuStored := by
    rw [← FlatMem.slice_read vh w.frame A.cpuFits, h, FlatMem.slice_read _ _ A.cpuFits]
    exact (w.attrV3 A attr).cpuStored
  stackSzStored := by
    rw [← FlatMem.slice_read vh w.frame A.stackSzFits, h, FlatMem.slice_read _ _ A.stackSzFits]
    exact (w.attrV3 A attr).stackSzStored

/-- `veo_context_open` makes a request. A VE thread that runs it finds the CPU in the first
    register, and the result tells whether the thread was cloned. -/
theorem veoContextOpen_result (A : AttributeVer3) (w : OpenEnv) :
    ∃ q, w.veoContextOpen A = .ok (.requested q) ∧ q.addr = w.createThread ∧
      ∀ (s₀ s : Sys T) (t : T) (r : Ret),
        Run (Sys.step P) (q.Carried (t, s₀.calls t)) (Sys.init v) s₀ →
        Run (Sys.step P) (q.Carried (t, s₀.calls t)) s₀ s → s.IdsLeft →
        s₀.pc t = .test (.callOpenContext q.addr) (.collect .doOnContext) →
        s.calls t = s₀.calls t → s.pc t = .done r →
        q.Ends P w.CpuReceived v (t, s₀.calls t) s (toCHandle r) := by
  let call : HelperCall A w.vh := .createThread (BitVec.ofInt 32 w.cpu)
  obtain ⟨ca, -, hca, -⟩ := HelperCall.args_of_short w.unset (c := call) trivial
  refine ⟨⟨w.createThread, ca, w.frame, []⟩, ?_, rfl, ?_⟩
  · exact Except.map_eq_ok.mpr ⟨_, Except.bind_eq_ok.mpr ⟨ca, hca, rfl⟩, rfl⟩
  · intro s₀ s t r h₀ h hleft hpc hsame hdone
    refine OpenRequest.ends_of_done h₀ h hleft hpc hsame hdone fun env u hmeets => ?_
    exact enters_of_received (A := A) hmeets w.unset (.createThread (BitVec.ofInt 32 w.cpu)) trivial
      hca fun _ => id

/-- An attribute object that has been set any number of times is used to open a context. NULL
    and ENOSYS come back if the VE process is too old or the worker does not run the request.
    Otherwise the VE thread that runs it finds the stack size that the last successful call has
    set, which is never below the minimum, and a CPU of the VE or -1, if the image of the arguments
    is sent; and the result tells whether the thread was cloned. -/
theorem veoContextOpenWithAttr_result (A : AttributeVer3) (w : OpenEnv) (version3 : Nat)
    (sizes : List (BitVec 64)) (hnum : 0 ≤ w.numChildThreads) :
    if w.version < version3 then
      veoContextOpenWithAttr A version3 (some w) (ThreadContextAttr.after sizes) =
        .ok (.returned ⟨0, some Errno.enosys⟩)
    else
      stackMin ≤ (lastStacksize sizes).toNat ∧ (-1 ≤ w.cpu ∧ w.cpu < maxCpuNum) ∧
      ∃ q, veoContextOpenWithAttr A version3 (some w) (ThreadContextAttr.after sizes) =
          .ok (.requested q) ∧
        q.addr = w.createThreadWithAttr ∧
        ∀ (s₀ s : Sys T) (t : T) (r : Ret),
          Run (Sys.step P) (q.Carried (t, s₀.calls t)) (Sys.init v) s₀ →
          Run (Sys.step P) (q.Carried (t, s₀.calls t)) s₀ s → s.IdsLeft →
          s₀.pc t = .test (.callOpenContext q.addr) (.collect .doOnContext) →
          s.calls t = s₀.calls t → s.pc t = .done r →
          q.Ends P (AttrReceived A w (lastStacksize sizes)) v (t, s₀.calls t) s (toCHandle r) := by
  obtain ⟨attr, hattr, hlast⟩ := ThreadContextAttr.after_eq_some sizes
  rw [hattr, ← hlast]
  split
  case isTrue hold => simp only [veoContextOpenWithAttr, if_pos hold]
  case isFalse hnew =>
    refine ⟨attr.le, cpu_range hnum, ?_⟩
    let call : HelperCall A (w.storeAttr A attr) := .createThreadWithAttr (w.attrV3 A attr)
    obtain ⟨ca, -, hca, -⟩ := HelperCall.args_of_short w.unset (c := call) trivial
    refine ⟨⟨w.createThreadWithAttr, ca, w.frame, (w.storeAttr A attr).read w.frame A.size⟩, ?_, rfl,
      ?_⟩
    · simp only [veoContextOpenWithAttr, if_neg hnew]
      exact Except.map_eq_ok.mpr ⟨_, Except.bind_eq_ok.mpr ⟨ca, hca, rfl⟩, rfl⟩
    · intro s₀ s t r h₀ h hleft hpc hsame hdone
      refine OpenRequest.ends_of_done h₀ h hleft hpc hsame hdone fun env u hmeets => ?_
      have hbuffer : env.vh.read w.frame A.size = (w.storeAttr A attr).read w.frame A.size := by
        have hread := hmeets.buffer
        rwa [FlatMem.length_read] at hread
      exact enters_of_received hmeets w.unset (.createThreadWithAttr (w.attrAt A attr hbuffer))
        trivial hca fun _ => id

end Opened

/-! ## A context that is opened -/

/-- A VE process of version 3 with many threads. -/
def sample : OpenEnv where
  version := 3
  createThread := 0x1000
  createThreadWithAttr := 0x2000
  tidCounter := 9
  numChildThreads := 1
  vh := fun _ => 0
  frame := 0x300
  unset := ⟨0, 0, [], false, false, 0⟩

/-- The memory of the program when the request for a stack of 8 MiB is made, and the request. -/
def sampleVh : FlatMem := sample.storeAttr sampleAttribute ⟨0x800000, by decide⟩

def sampleRequest : OpenRequest where
  addr := 0x2000
  args := ⟨[some (.onStack ⟨0x300, 16, by decide, true, false, 0⟩)], 0, 0, [], false, false⟩
  buffer := 0x300
  contents := sampleVh.read 0x300 16

/-- The VE thread calls `clone`, and the new context is at `0x5000`. -/
def sampleEnv : Env :=
  { Env.plain [] [.raised (.monitorCall 56 fun _ => 0), .raised (.blockRequest 0 0x7000)] with
    args := sampleRequest.args
    vh := sampleVh
    newctx := 0x5000 }

theorem sampleEnv_meets : sampleRequest.Meets sampleEnv where
  args := rfl
  buffer := by rw [sampleRequest, FlatMem.length_read]; rfl
  sends := fun _ _ _ _ => rfl
  clone := by decide
  newctx := by decide

/-- Steps of internal calls in which no command is run. -/
def quietCheck (s : Sys Bool) : Act Bool → Bool
  | .start _ op => op.internal
  | .caller _ => true
  | .pseudo _ => s.pseudo != .run

theorem carried_of_quiet (q : OpenRequest) (o : Bool × Nat) {s : Sys Bool} {a : Act Bool}
    (h : quietCheck s a = true) : q.Carried o s a := by
  cases a with
  | start t op => exact h
  | caller t => trivial
  | pseudo env => exact fun hrun => absurd hrun (by simpa [quietCheck] using h)

/-- The stack size is set three times, and the first and the last time it is too small. -/
theorem veoContextOpenWithAttr_sample :
    veoContextOpenWithAttr sampleAttribute 3 (some sample)
        (ThreadContextAttr.after [0x100, 0x800000, 0x200]) = .ok (.requested sampleRequest) ∧
      ∃ s : Sys Bool, s.pc true = .done (.value 0x5000) ∧
        sampleRequest.Ends linuxPlatform (AttrReceived sampleAttribute sample 0x800000) newThread
          (true, 1) s ⟨0x5000, none⟩ := by
  have hresult := veoContextOpenWithAttr_result (T := Bool) (P := linuxPlatform) (v := newThread)
    sampleAttribute sample 3 [0x100, 0x800000, 0x200] (by decide)
  rw [if_neg (by decide)] at hresult
  obtain ⟨-, -, q, hq, -, hends⟩ := hresult
  have hrequest : veoContextOpenWithAttr sampleAttribute 3 (some sample)
      (ThreadContextAttr.after [0x100, 0x800000, 0x200]) = .ok (.requested sampleRequest) := rfl
  cases hq.symm.trans hrequest
  refine ⟨hrequest, ?_⟩
  obtain ⟨s₀, h₀, hs₀⟩ := exists_run (Sys.step linuxPlatform) quietCheck (Sys.init newThread)
    [.pseudo sampleEnv, .pseudo sampleEnv, .start true (.openContext 0x2000)]
    (fun s₀ => s₀.pc true == .test (.callOpenContext 0x2000) (.collect .doOnContext) &&
      s₀.calls true == 1 &&
      (runList (Sys.step linuxPlatform) quietCheck s₀
        [.caller true, .caller true, .caller true, .caller true, .caller true, .caller true,
          .pseudo sampleEnv]).any fun s₁ =>
            (s₁.step linuxPlatform (.pseudo sampleEnv)).any fun s₂ =>
              (runList (Sys.step linuxPlatform) quietCheck s₂
                [.pseudo sampleEnv, .caller true]).any fun s =>
                  s.pc true == .done (.value 0x5000) && s.calls true == 1 && s.issued == 1)
    (fun _ _ => carried_of_quiet sampleRequest (true, 1)) (by decide +kernel)
  simp only [Bool.and_eq_true, beq_iff_eq, Option.any_eq_true] at hs₀
  obtain ⟨⟨htest, hcalls₀⟩, s₁, hrun₁, s₂, hstep, s, hrun, ⟨hdone, hcalls⟩, hissued⟩ := hs₀
  have hleft : s.IdsLeft := by
    rw [Sys.IdsLeft, hissued]
    decide
  have hbefore := run_of_runList (fun _ _ => carried_of_quiet sampleRequest (true, 1)) hrun₁
  have hafter := run_of_runList (fun _ _ => carried_of_quiet sampleRequest (true, 1)) hrun
  have hcarried : sampleRequest.Carried (true, 1) s₁ (.pseudo sampleEnv) :=
    fun _ _ _ _ => sampleEnv_meets
  have h := (hbefore.tail hcarried hstep).trans hafter
  rw [← hcalls₀] at h₀ h
  have hend := hends s₀ s true (.value 0x5000) h₀ h hleft htest (hcalls.trans hcalls₀.symm) hdone
  rw [hcalls₀] at hend
  exact ⟨s, hdone, hend⟩

end OpenEnv

end Veo
