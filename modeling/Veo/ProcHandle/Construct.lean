-- SUMMARY: The constructor of ProcHandle: the one VE process of the program, what failed attempts leave behind, and the helper functions.
import Veo.Handlers
import Veo.Lib.Transition

/-!
# Creating the VE process

The constructor opens a VEOS handle, takes `spawn_mtx` to its end, creates the VE process unless
the program already has one, runs it to its first block request, fetches the table of helper
functions and has the VE process create the worker. `proc_no` counts the processes.
-/

namespace Veo

open Bytes Transition

/-! ## `spawn_helper` -/

/-- The result of the `mmap` of the page at `PTRACE_PRIVATE_DATA`. -/
inductive PtraceMap where
  | failed | elsewhere | mapped
deriving DecidableEq, Repr

/-- The results of the functions that `spawn_helper` calls. -/
structure SpawnEnv where
  ptrace : PtraceMap
  mkstemp : Bool
  ftruncate : Bool
  mmap : Bool
  sendNewProc : Int
  recvLoadBinary : Int
  initVemva : Int
  loadBinary : Int
  initStack : Int
  sendStart : Int
  recvStart : Int
  sigaction : Int
  errno : Int
deriving DecidableEq

/-- What an attempt holds of the host and of VE OS. -/
structure Held where
  /-- The VEOS handle. -/
  handle : Bool
  /-- The temporary file for system call arguments, with its descriptor. -/
  file : Bool
  /-- The mapping of this file. -/
  shm : Bool
  /-- The VE process that VE OS has accepted. -/
  process : Bool
deriving DecidableEq

def Held.nothing : Held := ⟨false, false, false, false⟩

/-- The handle that the constructor opens first. -/
def Held.opened : Held := { Held.nothing with handle := true }

/-- `init_lhm_shm_area`: whether it succeeds. -/
def initLhmShmArea (env : SpawnEnv) (held : Held) : Bool × Held :=
  if env.mkstemp then
    let held := { held with file := true }
    if env.ftruncate then
      if env.mmap then (true, { held with shm := true }) else (false, held)
    else
      (false, held)
  else
    (false, held)

/-- `close_syscall_args_file`. -/
def closeSyscallArgsFile (held : Held) : Held := { held with file := false }

/-- `process_thread_cleanup` of the main thread. -/
def processThreadCleanup (held : Held) : Held := { held with process := false }

/-- The part of `spawn_helper` after VE OS has accepted the process. -/
def loadHelper (env : SpawnEnv) (held : Held) : Int × Held :=
  if env.initVemva ≠ 0 then (env.initVemva, held)
  else if env.loadBinary ≠ 0 then (env.loadBinary, processThreadCleanup held)
  else if env.initStack ≠ 0 then (env.initStack, processThreadCleanup held)
  else if env.sendStart < 0 then (env.sendStart, held)
  else if env.recvStart < 0 then (env.recvStart, held)
  else if env.sigaction < 0 then (env.sigaction, processThreadCleanup held)
  else (0, held)

/-- `spawn_helper`. -/
def spawnHelper (env : SpawnEnv) (held : Held) : Except Stop Int × Held :=
  if env.ptrace ≠ .mapped then
    (.error (.thrown "Failled to allocate ptrace related data" env.errno), held)
  else
    match initLhmShmArea env held with
    | (false, held) => (.error (.thrown "failed to create temporary file." 0), held)
    | (true, held) =>
      if env.sendNewProc < 0 then (.ok env.sendNewProc, closeSyscallArgsFile held)
      else if env.recvLoadBinary < 0 then (.ok env.recvLoadBinary, closeSyscallArgsFile held)
      else
        let (rv, held) := loadHelper env (closeSyscallArgsFile { held with process := true })
        (.ok rv, held)

/-! ## The constructor -/

/-- What `veorun.h` says of the table of helper functions: the versions, the size of the table
    in each of them, and the place of `create_thread`. -/
structure Veorun where
  version2 : Nat
  version3 : Nat
  version4 : Nat
  size2 : Nat
  size3 : Nat
  size4 : Nat
  createThread : Nat
  /-- Every table starts with its version, and a later one extends the earlier one. -/
  header : 8 ≤ size2
  extends3 : size2 ≤ size3
  extends4 : size3 ≤ size4

/-- The size of the table, if the version is known. -/
def Veorun.size (V : Veorun) (version : Nat) : Option Nat :=
  if version = V.version2 then some V.size2
  else if version = V.version3 then some V.size3
  else if version = V.version4 then some V.size4
  else none

/-- What the constructor meets: the results in `spawn_helper`, the main context and the driver,
    the bytes of the member `funcs` before it is filled, and the number of threads in the end. -/
structure CreateEnv where
  spawn : SpawnEnv
  main : VeThread
  driver : Env
  funcs : List Byte
  tidCounter : Int

/-- The members that the constructor sets. -/
structure ProcMembers where
  main : VeThread
  funcs : List Byte
  /-- What `handleCloneRequest` returned for the worker. -/
  tid : Int
  numChildThreads : Int

section Platform
variable (P : Platform) (V : Veorun)

/-- `waitForBlock`. -/
def waitForBlock (errno : Int) (es : List WaitResult) (t : VeThread) : Except Stop Handled := do
  let r ← defaultExceptionHandler P es t
  if r.status ≠ statusBlockRequested then
    .error (.thrown "Unexpected exception occured" errno)
  else
    return r

/-- `ve_recv_data` into the first bytes of `funcs`. -/
def recvFuncs (env : CreateEnv) (addr : BitVec 64) (size : Nat) (funcs : List Byte) :
    Except Stop (List Byte) :=
  let r := env.driver.recv env.driver.ve addr size (slice funcs 0 size)
  if r.1 ≠ 0 then .error (.thrown "Failed to receive data from VE" env.driver.errno)
  else .ok (splice funcs 0 size r.2)

def funcsVersion (funcs : List Byte) : Nat := toNatLE (slice funcs 0 8)

/-- The table of helper functions is fetched in two steps: the version, and then as much as the
    version says. -/
def fetchFuncs (env : CreateEnv) (addr : BitVec 64) : Except Stop (List Byte) := do
  let funcs ← recvFuncs env addr 8 env.funcs
  if V.version2 ≤ funcsVersion funcs then
    match V.size (funcsVersion funcs) with
    | some size => recvFuncs env addr size funcs
    | none => .error (.thrown "Invalid VEORUN_VERSION" env.driver.errno)
  else
    .error (.fault .assertion)

/-- The environment of the call of `create_thread`: its argument is -1, an `int`. -/
def createThreadEnv (env : CreateEnv) : Env :=
  { env.driver with args := ⟨[some (.int .int32 (-1))], 0, 0, [], false, false⟩ }

/-- The constructor after the VE process has been spawned. -/
def initProc (env : CreateEnv) : Except Stop ProcMembers := do
  -- handle some system calls from main thread for initialization of VE libc
  let r ← waitForBlock P env.driver.errno env.driver.events { env.main with state := .running }
  let (addr, main) ← collectReturnValue r.thread
  let funcs ← fetchFuncs V env addr
  -- create worker
  let createThread := BitVec.ofNat 64 (toNatLE (slice funcs V.createThread 8))
  let s ← doCall createThread (createThreadEnv env) env.driver.machine main
  -- hook clone() on VE
  let req ← exceptionHandler P .hookClone r.rest s.thread
  if req.status ≠ P.nr .clone then
    .error (.thrown "VE process requests block unexpectedly." 0)
  else
    let tid ← handleCloneRequest env.driver
    -- restart execution; execute until the next block request
    let last ← waitForBlock P env.driver.errno req.rest (unBlock (toWord tid) req.thread)
    return { main := last.thread, funcs := funcs, tid := tid, numChildThreads := env.tidCounter }

/-- An attempt to create a VE process. -/
structure Attempt where
  result : Except Stop ProcMembers
  held : Held
  /-- A VE process was created and counted. -/
  spawned : Bool

/-- The constructor from the lock of `spawn_mtx` on, with the VEOS handle open. Returns `proc_no`
    too. -/
def construct (env : CreateEnv) (procNo : Nat) : Attempt × Nat :=
  if procNo ≠ 0 then
    (⟨.error (.thrown "The creation of a VE process failed." 0), .nothing, false⟩, procNo)
  else
    match spawnHelper env.spawn .opened with
    | (.error e, held) => (⟨.error e, held, false⟩, procNo)
    | (.ok rv, held) =>
      if rv ≠ 0 then
        (⟨.error (.thrown "The creation of a VE process failed." 0),
          { held with handle := false }, false⟩, procNo)
      else
        (⟨initProc P V env, held, true⟩, procNo + 1)

end Platform

/-! ## The table of helper functions -/

theorem Veorun.le_size {V : Veorun} {version size : Nat} (h : V.size version = some size) :
    8 ≤ size := by
  have := V.header
  have := V.extends3
  have := V.extends4
  unfold Veorun.size at h
  split_ifs at h <;> cases h <;> omega

section Table
variable {P : Platform} {V : Veorun} {env : CreateEnv}

theorem waitForBlock_eq_ok {errno : Int} {es : List WaitResult} {t : VeThread} {r : Handled}
    (ht : t.state = .running) (h : waitForBlock P errno es t = .ok r) :
    ∃ pre e post u, es = pre ++ .raised e :: post ∧ (∀ w ∈ pre, w.Quiet P .default) ∧
      e.IsBlock P ∧ r.thread = e.after P .default u := by
  obtain ⟨r', hr, h₁⟩ := Except.bind_eq_ok.mp h
  split at h₁
  · cases h₁
  · rename_i hstatus
    cases h₁
    obtain ⟨pre, e, post, hes, hpre, -, rfl⟩ := exceptionHandler_eq_ok ht hr
    exact ⟨pre, e, post, _, hes, hpre, (VeException.status_eq_block_iff.mp (not_not.mp hstatus)).2,
      rfl⟩

theorem recvFuncs_eq_ok {addr : BitVec 64} {size : Nat} {funcs funcs' : List Byte}
    (hrecv : Recvs env.driver.recv) (h : recvFuncs env addr size funcs = .ok funcs') :
    funcs' = env.driver.ve.read addr size ++ funcs.drop size := by
  unfold recvFuncs at h
  dsimp only at h
  split at h
  · cases h
  · rename_i hzero
    cases h
    rw [hrecv _ _ _ _ (not_not.mp hzero)]
    simp [splice]

/-- The second transfer replaces what the first one has brought. -/
theorem fetchFuncs_eq_ok {addr : BitVec 64} {funcs : List Byte} (hrecv : Recvs env.driver.recv)
    (h : fetchFuncs V env addr = .ok funcs) :
    ∃ size, V.size (toNatLE (env.driver.ve.read addr 8)) = some size ∧
      funcs = env.driver.ve.read addr size ++ env.funcs.drop size ∧
      funcsVersion funcs = toNatLE (env.driver.ve.read addr 8) := by
  have hversion (size : Nat) (rest : List Byte) (hsize : 8 ≤ size) :
      funcsVersion (env.driver.ve.read addr size ++ rest) = toNatLE (env.driver.ve.read addr 8) := by
    rw [funcsVersion, slice_append_left (by simpa using hsize),
      WordMem.slice_read _ _ (by simpa using hsize)]
    simp
  obtain ⟨first, hfirst, h₁⟩ := Except.bind_eq_ok.mp h
  have hfirst := recvFuncs_eq_ok hrecv hfirst
  have hfv : funcsVersion first = toNatLE (env.driver.ve.read addr 8) := by
    rw [hfirst]
    exact hversion 8 _ (Nat.le_refl 8)
  rw [hfv] at h₁
  split at h₁
  · split at h₁
    · rename_i size hsize
      have hle := Veorun.le_size hsize
      have hfuncs := recvFuncs_eq_ok hrecv h₁
      have hdrop : first.drop size = env.funcs.drop size := by
        obtain ⟨k, rfl⟩ := Nat.exists_eq_add_of_le hle
        rw [hfirst, ← List.drop_drop, List.drop_left' (by simp), List.drop_drop]
      rw [hdrop] at hfuncs
      exact ⟨size, hsize, hfuncs, by rw [hfuncs]; exact hversion size _ hle⟩
    · cases h₁
  · cases h₁

/-- A constructor that returns has the table of helper functions that the VE process passed to
    its first block request: as much as the version in VE memory says, and nothing past it. The
    main thread waits at a block request, whether or not the clone of the worker succeeded. -/
theorem construct_table {n n' : Nat} {a : Attempt} {m : ProcMembers}
    (h : construct P V env n = (a, n')) (hok : a.result = .ok m) (hrecv : Recvs env.driver.recv) :
    m.main.state = .blocked ∧ m.tid = env.driver.clone ∧ env.driver.semInit = true ∧
    ∃ pre e post size, env.driver.events = pre ++ .raised e :: post ∧
      (∀ w ∈ pre, w.Quiet P .default) ∧ e.IsBlock P ∧
      V.size (funcsVersion m.funcs) = some size ∧
      m.funcs = env.driver.ve.read (e.args argRetval) size ++ env.funcs.drop size := by
  have hinit : initProc P V env = .ok m := by
    unfold construct at h
    split at h
    · cases h
      cases hok
    · split at h
      · cases h
        cases hok
      · split at h <;> cases h
        · cases hok
        · exact hok
  obtain ⟨r, hwait, h₁⟩ := Except.bind_eq_ok.mp hinit
  obtain ⟨⟨addr, main⟩, hcollect, h₂⟩ := Except.bind_eq_ok.mp h₁
  obtain ⟨funcs, hfetch, h₃⟩ := Except.bind_eq_ok.mp h₂
  obtain ⟨s, hdo, h₄⟩ := Except.bind_eq_ok.mp h₃
  obtain ⟨req, hreq, h₅⟩ := Except.bind_eq_ok.mp h₄
  split at h₅
  · cases h₅
  · obtain ⟨tid, htid, h₆⟩ := Except.bind_eq_ok.mp h₅
    obtain ⟨last, hlast, h₇⟩ := Except.bind_eq_ok.mp h₆
    cases h₇
    obtain ⟨hsem, hclone⟩ := Except.ite_eq_ok.mp htid
    obtain ⟨pre, e, post, u, hes, hpre, hblock, hthread⟩ := waitForBlock_eq_ok rfl hwait
    rw [hthread, collectReturnValue_after hblock] at hcollect
    cases hcollect
    obtain ⟨size, hsize, hfuncs, hversion⟩ := fetchFuncs_eq_ok hrecv hfetch
    obtain ⟨-, e', -, v, -, -, hblock', hthread'⟩ := waitForBlock_eq_ok rfl hlast
    refine ⟨?_, hclone.symm, hsem, pre, e, post, size, hes, hpre, hblock, ?_, hfuncs⟩
    · exact hthread' ▸ VeException.after_state_of_block hblock'
    · rw [hversion]
      exact hsize

end Table

/-- Three versions that add one pointer each to a table of seven. -/
def sampleVeorun : Veorun :=
  ⟨2, 3, 4, 64, 72, 80, 40, by decide, by decide, by decide⟩

/-- A process that is created: the VE process passes the address of a table of version 3, and
    the worker is cloned. -/
def sampleCreateEnv : CreateEnv where
  spawn := ⟨.mapped, true, true, true, 0, 0, 0, 0, 0, 0, 0, 0, 0⟩
  main := ⟨.unknown, 0, fun _ => 0, [], []⟩
  driver :=
    { Env.plain [] [.raised (.blockRequest 0x2000 0x8000), .raised (.monitorCall 56 fun _ => 0),
        .raised (.blockRequest 0 0x7000)] with
      ve := fun a => if a = 0x2000 then 3 else 0 }
  funcs := List.replicate 80 0xff
  tidCounter := 1

/-- The table of version 3 is fetched and the pointer of version 4 is left as it was. -/
theorem construct_table_version3 :
    ∃ m, (construct linuxPlatform sampleVeorun sampleCreateEnv 0).1.result = .ok m ∧
      m.main.state = .blocked ∧ funcsVersion m.funcs = 3 ∧ m.funcs.drop 72 = List.replicate 8 0xff := by
  have hrun : (construct linuxPlatform sampleVeorun sampleCreateEnv 0).1.result.toOption.map
      (fun m => decide (funcsVersion m.funcs = 3 ∧ m.funcs.drop 72 = List.replicate 8 0xff)) =
        some true := by
    decide +kernel
  obtain ⟨m, hm, hfuncs⟩ := Option.map_eq_some_iff.mp hrun
  have hok := Except.toOption_eq_some.mp hm
  exact ⟨m, hok, (construct_table (Prod.eta _).symm hok fun _ _ _ _ _ => rfl).1, of_decide_eq_true hfuncs⟩

/-! ## What an attempt leaves behind -/

namespace SpawnEnv

/-- The page, the temporary file and its mapping are there. -/
def AreaReady (env : SpawnEnv) : Prop :=
  env.ptrace = .mapped ∧ env.mkstemp = true ∧ env.ftruncate = true ∧ env.mmap = true

/-- VE OS accepts the process. -/
def Accepted (env : SpawnEnv) : Prop := 0 ≤ env.sendNewProc ∧ 0 ≤ env.recvLoadBinary

/-- The executable is loaded and started. -/
def Loaded (env : SpawnEnv) : Prop :=
  env.initVemva = 0 ∧ env.loadBinary = 0 ∧ env.initStack = 0 ∧ 0 ≤ env.sendStart ∧
    0 ≤ env.recvStart ∧ 0 ≤ env.sigaction

/-- The failures after which the process is not cleaned up. -/
def Abandoned (env : SpawnEnv) : Prop :=
  env.initVemva ≠ 0 ∨
    (env.loadBinary = 0 ∧ env.initStack = 0 ∧ (env.sendStart < 0 ∨ env.recvStart < 0))

end SpawnEnv

theorem loadHelper_spec (env : SpawnEnv) (held : Held) (hp : held.process = true) :
    ((loadHelper env held).1 = 0 ↔ env.Loaded) ∧
    ((loadHelper env held).2.process = true ↔ env.Loaded ∨ env.Abandoned) ∧
    (loadHelper env held).2.handle = held.handle ∧ (loadHelper env held).2.file = held.file ∧
    (loadHelper env held).2.shm = held.shm := by
  unfold loadHelper SpawnEnv.Loaded SpawnEnv.Abandoned processThreadCleanup
  split_ifs <;> simp_all <;> omega

/-- `spawn_helper` throws if the area is not ready; otherwise it returns zero exactly if the
    process runs, and it has removed the temporary file. -/
theorem spawnHelper_spec (env : SpawnEnv) :
    (¬ env.AreaReady ∧ ∃ what errno, spawnHelper env .opened =
      (.error (.thrown what errno),
        { Held.opened with file := decide (env.ptrace = .mapped) && env.mkstemp })) ∨
    (env.AreaReady ∧ ∃ rv held, spawnHelper env .opened = (.ok rv, held) ∧
      (rv = 0 ↔ env.Accepted ∧ env.Loaded) ∧ held.handle = true ∧ held.file = false ∧
      held.shm = true ∧
      (held.process = true ↔ env.Accepted ∧ (env.Loaded ∨ env.Abandoned))) := by
  by_cases hptrace : env.ptrace = .mapped
  case neg =>
    refine .inl ⟨fun h => hptrace h.1, "Failled to allocate ptrace related data", env.errno, ?_⟩
    simp [spawnHelper, hptrace, Held.opened, Held.nothing]
  case pos =>
    by_cases harea : env.mkstemp = true ∧ env.ftruncate = true ∧ env.mmap = true
    case neg =>
      refine .inl ⟨fun h => harea h.2, "failed to create temporary file.", 0, ?_⟩
      cases hm : env.mkstemp <;> cases hf : env.ftruncate <;> cases ha : env.mmap <;>
        simp_all [spawnHelper, initLhmShmArea, Held.opened, Held.nothing]
    case pos =>
      obtain ⟨hm, hf, ha⟩ := harea
      refine .inr ⟨⟨hptrace, hm, hf, ha⟩, ?_⟩
      simp only [spawnHelper, initLhmShmArea, hptrace, hm, hf, ha, if_true, ne_eq,
        not_true_eq_false, if_false]
      by_cases hsend : env.sendNewProc < 0
      · have hnot : ¬ env.Accepted := fun h => Int.not_lt.mpr h.1 hsend
        refine ⟨env.sendNewProc, _, by rw [if_pos hsend], ?_, rfl, rfl, rfl, ?_⟩
        · exact ⟨fun h => absurd hsend (by omega), fun h => absurd h.1 hnot⟩
        · exact ⟨(fun h => by cases h), fun h => absurd h.1 hnot⟩
      · by_cases hrecv : env.recvLoadBinary < 0
        · have hnot : ¬ env.Accepted := fun h => Int.not_lt.mpr h.2 hrecv
          refine ⟨env.recvLoadBinary, _, by rw [if_neg hsend, if_pos hrecv], ?_, rfl, rfl, rfl, ?_⟩
          · exact ⟨fun h => absurd hrecv (by omega), fun h => absurd h.1 hnot⟩
          · exact ⟨(fun h => by cases h), fun h => absurd h.1 hnot⟩
        · obtain ⟨hrv, hproc, hhandle, hfile, hshm⟩ := loadHelper_spec env
            (closeSyscallArgsFile { Held.opened with file := true, shm := true, process := true }) rfl
          have hacc : env.Accepted := ⟨Int.not_lt.mp hsend, Int.not_lt.mp hrecv⟩
          refine ⟨_, _, by rw [if_neg hsend, if_neg hrecv], ?_, hhandle, hfile, hshm, ?_⟩
          · exact hrv.trans ⟨fun h => ⟨hacc, h⟩, fun h => h.2⟩
          · exact hproc.trans ⟨fun h => ⟨hacc, h⟩, fun h => h.2⟩

/-- What is left of an attempt that found no process: the handle if `spawn_helper` threw or
    succeeded, the temporary file if it was made and could not be used, and the process
    if it runs or was abandoned. -/
structure Attempt.Accounts (env : SpawnEnv) (a : Attempt) : Prop where
  spawned : a.spawned = true ↔ env.AreaReady ∧ env.Accepted ∧ env.Loaded
  handle : a.held.handle = true ↔ ¬ env.AreaReady ∨ (env.Accepted ∧ env.Loaded)
  file : a.held.file = true ↔ env.ptrace = .mapped ∧ env.mkstemp = true ∧ ¬ env.AreaReady
  shm : a.held.shm = true ↔ env.AreaReady
  process : a.held.process = true ↔
    env.AreaReady ∧ env.Accepted ∧ (env.Loaded ∨ env.Abandoned)

/-- An attempt that found a process: it throws and leaves nothing. -/
def Attempt.Rejected (a : Attempt) : Prop :=
  a.held = .nothing ∧ a.spawned = false ∧ ∃ what errno, a.result = .error (.thrown what errno)

section Construct
variable {P : Platform} {V : Veorun} {env : CreateEnv}

theorem construct_rejected {n n' : Nat} {a : Attempt} (hn : n ≠ 0)
    (h : construct P V env n = (a, n')) : a.Rejected ∧ n' = n := by
  rw [construct, if_pos hn] at h
  cases h
  exact ⟨⟨rfl, rfl, _, _, rfl⟩, rfl⟩

theorem construct_accounts {n : Nat} {a : Attempt} (h : construct P V env 0 = (a, n)) :
    a.Accounts env.spawn ∧ n = (if a.spawned then 1 else 0) ∧
      (∀ m, a.result = .ok m → a.spawned = true) := by
  rw [construct, if_neg (not_not.mpr rfl)] at h
  rcases spawnHelper_spec env.spawn with ⟨hnot, what, errno, hspawn⟩ |
    ⟨hready, rv, held, hspawn, hrv, hhandle, hfile, hshm, hproc⟩
  · rw [hspawn] at h
    cases h
    refine ⟨⟨?_, ?_, ?_, ?_, ?_⟩, rfl, fun m hm => by cases hm⟩ <;>
      simp [hnot, Held.opened, Held.nothing]
  · rw [hspawn] at h
    dsimp only at h
    by_cases hzero : rv = 0
    · have hdone := hrv.mp hzero
      rw [if_neg (not_not.mpr hzero)] at h
      cases h
      refine ⟨⟨?_, ?_, ?_, ?_, ?_⟩, rfl, fun _ _ => rfl⟩ <;> simp [hready, hdone, hhandle, hfile, hshm]
      simpa [hdone] using hproc
    · have hfailed : ¬ (env.spawn.Accepted ∧ env.spawn.Loaded) := fun h => hzero (hrv.mpr h)
      rw [if_pos hzero] at h
      cases h
      refine ⟨⟨?_, ?_, ?_, ?_, ?_⟩, rfl, fun m hm => by cases hm⟩ <;>
        simp [hready, hfailed, hfile, hshm, hproc]

end Construct

/-! ## Any number of creators -/

/-- The threads that create processes. `opened` are the ones that have a handle and wait for
    `spawn_mtx`. -/
structure Creation (T : Type) where
  procNo : Nat
  opened : T → Bool
  aborted : Bool
  log : List (CreateEnv × Attempt)

namespace Creation

variable {T : Type}

def init : Creation T := ⟨0, fun _ => false, false, []⟩

inductive Act (T : Type) where
  /-- `veos_handle_create`; if it fails the constructor throws. -/
  | openHandle (t : T) (ok : Bool)
  /-- The constructor under `spawn_mtx`. -/
  | construct (t : T) (env : CreateEnv)

def step [DecidableEq T] (P : Platform) (V : Veorun) (c : Creation T) : Act T → Option (Creation T)
  | .openHandle t ok =>
    if c.aborted ∨ c.opened t then none
    else some { c with opened := Function.update c.opened t ok }
  | .construct t env =>
    if c.aborted ∨ ¬ c.opened t then none
    else
      let (a, procNo) := Veo.construct P V env c.procNo
      match a.result with
      | .error (.waiting _) => none
      | .error (.fault _) => some { c with aborted := true }
      | .ok _ | .error (.thrown _ _) =>
        some { c with
          procNo := procNo, opened := Function.update c.opened t false, log := c.log ++ [(env, a)] }

/-- The attempts before the first process account for what they hold, and the later ones are
    rejected. -/
structure Ok (c : Creation T) : Prop where
  counted : c.procNo = c.log.countP (·.2.spawned)
  once : c.procNo ≤ 1
  success : ∀ x ∈ c.log, ∀ m, x.2.result = .ok m → x.2.spawned = true
  attempt : ∀ pre x post, c.log = pre ++ x :: post →
    if pre.any (·.2.spawned) then x.2.Rejected else x.2.Accounts x.1.spawn

/-- The last element of a list, or one before it. -/
theorem concat_split {α : Type} {l pre post : List α} {x y : α} (h : l ++ [x] = pre ++ y :: post) :
    (pre = l ∧ y = x) ∨ ∃ post', l = pre ++ y :: post' := by
  rcases List.eq_nil_or_concat post with rfl | ⟨post', z, rfl⟩
  · obtain ⟨rfl, hx⟩ := List.append_inj' h rfl
    exact .inl ⟨rfl, (List.singleton_inj.mp hx).symm⟩
  · rw [List.concat_eq_append, ← List.cons_append, ← List.append_assoc] at h
    exact .inr ⟨post', (List.append_inj' h rfl).1⟩

section Run
variable [DecidableEq T] {P : Platform} {V : Veorun} {c c' : Creation T} {a : Act T}

/-- An attempt is added to the log, or nothing that matters changes. -/
theorem step_cases (h : c.step P V a = some c') :
    (c'.log = c.log ∧ c'.procNo = c.procNo) ∨
    ∃ env x n, construct P V env c.procNo = (x, n) ∧ c'.log = c.log ++ [(env, x)] ∧
      c'.procNo = n := by
  cases a with
  | openHandle t ok =>
      simp only [step] at h
      split at h <;> cases h
      exact .inl ⟨rfl, rfl⟩
  | construct t env =>
      simp only [step] at h
      split at h
      · cases h
      · split at h <;> cases h
        · exact .inl ⟨rfl, rfl⟩
        all_goals exact .inr ⟨env, _, _, rfl, rfl, rfl⟩

omit [DecidableEq T] in
theorem Ok.construct {env : CreateEnv} {x : Attempt} {n : Nat} (hc : c.Ok)
    (hx : Veo.construct P V env c.procNo = (x, n)) (hlog : c'.log = c.log ++ [(env, x)])
    (hn : c'.procNo = n) : c'.Ok := by
  have hany : c.log.any (·.2.spawned) = true ↔ c.procNo ≠ 0 := by
    rw [hc.counted, List.any_eq_true, ← Nat.pos_iff_ne_zero, List.countP_pos_iff]
  by_cases hzero : c.procNo = 0
  case pos =>
    rw [hzero] at hx
    obtain ⟨hacc, hnum, hok⟩ := construct_accounts hx
    have hnone : c.log.any (·.2.spawned) = false := by
      rw [Bool.eq_false_iff]
      exact fun h => hany.mp h hzero
    constructor
    case counted =>
      rw [hn, hlog, List.countP_append, ← hc.counted, hzero, hnum]
      simp [List.countP_singleton]
    case once =>
      rw [hn, hnum]
      split <;> omega
    case success =>
      intro y hy m hm
      rw [hlog] at hy
      rcases List.mem_append.mp hy with hy | hy
      · exact hc.success y hy m hm
      · cases List.mem_singleton.mp hy
        exact hok m hm
    case attempt =>
      intro pre y post hsplit
      rw [hlog] at hsplit
      rcases concat_split hsplit with ⟨rfl, rfl⟩ | ⟨post', hold⟩
      · rw [hnone]
        exact hacc
      · exact hc.attempt pre y post' hold
  case neg =>
    obtain ⟨hrej, hnum⟩ := construct_rejected hzero hx
    constructor
    case counted =>
      rw [hn, hlog, List.countP_append, ← hc.counted, hnum]
      simp [hrej.2.1]
    case once =>
      rw [hn, hnum]
      exact hc.once
    case success =>
      intro y hy m hm
      rw [hlog] at hy
      rcases List.mem_append.mp hy with hy | hy
      · exact hc.success y hy m hm
      · cases List.mem_singleton.mp hy
        obtain ⟨-, -, what, errno, hres⟩ := hrej
        cases hres.symm.trans hm
    case attempt =>
      intro pre y post hsplit
      rw [hlog] at hsplit
      rcases concat_split hsplit with ⟨rfl, rfl⟩ | ⟨post', hold⟩
      · rw [if_pos (hany.mpr hzero)]
        exact hrej
      · exact hc.attempt pre y post' hold

/-- Whatever the order in which any number of threads create processes: `proc_no` is the number
    of processes, at most one is ever created, only the attempt that created it succeeds, each
    attempt before it leaves exactly what its failure says, and each one after it throws and
    leaves nothing. -/
theorem creation_once (h : Reaches (step P V) (init : Creation T) c) : c.Ok := by
  refine h.invariant (fun c a c' hc _ hstep => ?_) ?_
  · rcases step_cases hstep with ⟨hlog, hn⟩ | ⟨env, x, n, hx, hlog, hn⟩
    · exact ⟨by rw [hlog, hn]; exact hc.counted, by rw [hn]; exact hc.once,
        by rw [hlog]; exact hc.success, by rw [hlog]; exact hc.attempt⟩
    · exact hc.construct hx hlog hn
  · exact ⟨rfl, Nat.zero_le _, (fun x hx => by cases hx), fun pre x post hsplit => by
      simp [init] at hsplit⟩

end Run

/-- Two threads open a handle; the first one creates the process and the second one is turned
    away. -/
theorem creation_once_second :
    ∃ c, Reaches (step linuxPlatform sampleVeorun) (init : Creation Bool) c ∧ c.Ok ∧
      c.log.map (fun x => (x.2.spawned, x.2.held)) =
        [(true, ⟨true, false, true, true⟩), (false, .nothing)] := by
  obtain ⟨c, hreach, hlog⟩ := exists_reaches (step linuxPlatform sampleVeorun)
    (init : Creation Bool)
    [.openHandle false true, .openHandle true true, .construct false sampleCreateEnv,
      .construct true sampleCreateEnv]
    (fun c => decide (c.log.map (fun x => (x.2.spawned, x.2.held)) =
      [(true, ⟨true, false, true, true⟩), (false, .nothing)])) (by decide +kernel)
  exact ⟨c, hreach, creation_once hreach, of_decide_eq_true hlog⟩

end Creation

end Veo
