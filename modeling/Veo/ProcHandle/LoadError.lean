-- SUMMARY: Fetching the error text of a library that was not loaded: when the VE buffer is freed, and where the text comes from.
import Veo.ProcHandle.Basic
import Veo.Handlers.Throws

/-!
# The error text of `loadLibrary`

`loadLibraryError` makes four requests of the worker: it allocates a buffer on the VE, has
`load_library_err` fill it, reads it, and frees it. A request is refused if the function has no
address or the worker is gone. A request that does not complete with the status OK is the last one
of the worker, because its event loop ends.
-/

namespace Veo

/-! ## The worker -/

section Worker
variable {P : Platform} {env : Env} {t : VeThread} {f : Handler}

/-- The commands that `doOnContext` and `readMem` submit. -/
def Handler.isNested : Handler → Bool
  | .callAsync _ | .asyncReadMem .. => true
  | _ => false

/-- The handler of such a command fails exactly if the status that it sets is not OK. -/
theorem exec_nested (hf : f.isNested = true) {o : Outcome} (h : f.exec P env t = .ok o) :
    o.rv = 0 ↔ o.result.status = .ok := by
  refine ⟨fun hrv => ?_, fun hok => by_contra fun hrv => exec_failed_status h hrv hok⟩
  cases f with
  | callAsync addr =>
      rcases callAsync_result h with ⟨-, hstatus⟩ | ⟨hone, -⟩
      · exact hstatus
      · cases hone.symm.trans hrv
  | asyncReadMem d s n =>
      cases h
      exact if_pos hrv
  | _ => cases hf

/-- A request that does not complete with the status OK is the last one of the worker: its event
    loop goes on to the failure sequence. -/
theorem Sys.runCommand_nested {T : Type} {s s' : Sys T} {c : Command T}
    (hkind : c.kind = .handler f) (hf : f.isNested = true) (h : s.runCommand P env c = some s')
    (hne : s'.pseudo ≠ .aborted) :
    ∃ r, s'.command = some (c.setResult r) ∧
      s'.pseudo = if r.status = .ok then .complete else .failState := by
  simp only [runCommand, hkind] at h
  cases hexec : f.exec P env s.thread with
  | ok o =>
      rw [hexec] at h
      cases h
      refine ⟨o.result, rfl, ?_⟩
      by_cases hok : o.result.status = .ok
      · simp [hok, (exec_nested hf hexec).mpr hok]
      · simp [hok, mt (exec_nested hf hexec).mp hok]
  | error e =>
      rw [hexec] at h
      cases e with
      | waiting u => cases h
      | thrown what errno =>
          cases h
          exact absurd rfl hne
      | fault x =>
          cases h
          exact absurd rfl hne

end Worker

/-! ## The requests -/

/-- `ERR_MSG_LEN`. -/
def errMsgLen : Nat := symnameLenMax * 2

/-- The addresses of the helper functions in the VE process. -/
structure HelperFunctions where
  allocBuff : BitVec 64
  freeBuff : BitVec 64
  loadLibraryErr : BitVec 64

/-- The VE process: whether the worker is able to execute requests, the addresses of the live
    allocations, and the memory. -/
structure VeProcess where
  able : Bool
  live : Finset (BitVec 64)
  mem : WordMem 64

/-- How the requests of `loadLibraryError` end if they are accepted, and what `rv` holds before it
    is set. -/
structure Requests where
  alloc : CmdResult
  loadErr : CmdResult
  /-- The memory of the VE when `load_library_err` returns. -/
  filled : WordMem 64
  /-- The result of `ve_recv_data`. -/
  recv : Int
  free : CmdResult
  /-- The VE process after a request that fails. -/
  lost : VeProcess
  indeterminate : Int

/-- `alloc_buff` returns zero or an address that is not in use. -/
def Requests.AllocFresh (n : Requests) (p : VeProcess) : Prop :=
  n.alloc.status = .ok → n.alloc.retval ≠ 0 → n.alloc.retval ∉ p.live

namespace VeProcess

/-- `doOnContext` on the worker, with the result of the command if it is accepted and the effect of
    the VE function if it returns. -/
def doOnContext (p : VeProcess) (func : BitVec 64) (r : CmdResult)
    (effect : VeProcess → VeProcess) (lost : VeProcess) : Ret × VeProcess :=
  if func = 0 ∨ p.able = false then
    (Waiter.doOnContext.returns .error none, p)
  else
    (Waiter.doOnContext.returns r.status (some r.retval),
     if r.status = .ok then effect p else { lost with able := false })

/-- `allocBuff`. -/
def allocBuff (p : VeProcess) (funcs : HelperFunctions) (n : Requests) : Ret × VeProcess :=
  p.doOnContext funcs.allocBuff n.alloc
    (fun p => if n.alloc.retval = 0 then p else { p with live := insert n.alloc.retval p.live })
    n.lost

/-- `freeBuff`. -/
def freeBuff (p : VeProcess) (funcs : HelperFunctions) (n : Requests) (buff : BitVec 64) :
    Ret × VeProcess :=
  p.doOnContext funcs.freeBuff n.free (fun p => { p with live := p.live.erase buff }) n.lost

/-- `readMem`, with the bytes that it reads. -/
def readMem (p : VeProcess) (n : Requests) (src : BitVec 64) (size : Nat) :
    Ret × List Byte × VeProcess :=
  if p.able = false then
    (Waiter.readMem.returns .error none, [], p)
  else
    let r := transferResult n.recv
    (Waiter.readMem.returns r.status (some r.retval), p.mem.read src size,
     if r.status = .ok then p else { n.lost with able := false })

/-! ## The function -/

/-- How `loadLibraryError` ends: it returns and has copied some bytes to `ret_buff`, a
    `VEOException` leaves it, or an assertion fails. -/
inductive Ended where
  | returned (rv : Int) (copied : List Byte)
  | threw
  | aborted
deriving DecidableEq

/-- The call of `load_library_err`. The exception of a failed request is caught, and `rv` keeps the
    value that it has. -/
def callLoadErr (p : VeProcess) (funcs : HelperFunctions) (n : Requests) : Int × VeProcess :=
  match p.doOnContext funcs.loadLibraryErr n.loadErr (fun p => { p with mem := n.filled }) n.lost with
  | (.value ret, p) => (ret.toInt, p)
  | (_, p) => (n.indeterminate, p)

/-- The part of `loadLibraryError` after `load_library_err`. -/
def collect (p : VeProcess) (funcs : HelperFunctions) (n : Requests) (buff : BitVec 64)
    (size : Nat) : Ended × VeProcess :=
  match p.readMem n buff errMsgLen with
  | (.value ret, errMsg, p) =>
    if toInt32 ret.toNat ≠ 0 then
      (.returned (-1) [], p)
    else
      match p.freeBuff funcs n buff with
      | (.value _, p) => (.returned 0 (errMsg.take (if size < errMsgLen then size else errMsgLen)), p)
      | (_, p) => (.threw, p)
  | (_, _, p) => (.aborted, p)

/-- `loadLibraryError`. -/
def loadLibraryError (p : VeProcess) (funcs : HelperFunctions) (n : Requests) (size : Nat) :
    Ended × VeProcess :=
  match p.allocBuff funcs n with
  | (.value buff, p) =>
    if buff = 0 then
      (.returned (-1) [], p)
    else
      let (rv, p) := p.callLoadErr funcs n
      if rv < 0 then
        -- the buffer is not freed
        (.returned (-1) [], p)
      else
        p.collect funcs n buff size
  | (_, p) => (.returned (-1) [], p)

/-! ## One request -/

section Requests
variable {funcs : HelperFunctions} {n : Requests} {p lost : VeProcess} {func buff : BitVec 64}
  {r : CmdResult} {effect : VeProcess → VeProcess}

theorem doOnContext_refused (h : func = 0 ∨ p.able = false) :
    p.doOnContext func r effect lost = (.threw, p) := if_pos h

theorem doOnContext_ok (hfunc : func ≠ 0) (hable : p.able = true) (hr : r.status = .ok) :
    p.doOnContext func r effect lost = (.value r.retval, effect p) := by
  rw [doOnContext, if_neg (not_or.mpr ⟨hfunc, Bool.not_eq_false _ ▸ hable⟩), if_pos hr]
  simp [hr, Waiter.returns]

theorem doOnContext_failed (hfunc : func ≠ 0) (hable : p.able = true) (hr : r.status ≠ .ok) :
    p.doOnContext func r effect lost = (.threw, { lost with able := false }) := by
  rw [doOnContext, if_neg (not_or.mpr ⟨hfunc, Bool.not_eq_false _ ▸ hable⟩), if_neg hr]
  simp [hr, Waiter.returns]

theorem readMem_ok (hable : p.able = true) (h : n.recv = 0) (size : Nat) :
    p.readMem n buff size = (.value 0, p.mem.read buff size, p) := by
  simp [readMem, hable, h, transferResult, Waiter.returns, toWord]

/-- A transfer that fails ends in the assertion, and the worker is gone. -/
theorem readMem_aborted (h : p.able = false ∨ n.recv ≠ 0) (buff : BitVec 64) (size : Nat) :
    ∃ bytes p', p.readMem n buff size = (.aborted, bytes, p') ∧ p'.able = false := by
  by_cases hable : p.able = false
  · exact ⟨[], p, if_pos hable, hable⟩
  · have hrecv : n.recv ≠ 0 := h.resolve_left hable
    refine ⟨p.mem.read buff size, { n.lost with able := false }, ?_, rfl⟩
    simp [readMem, hable, hrecv, transferResult, Waiter.returns]

/-! ## The parts of the function -/

theorem callLoadErr_refused (h : funcs.loadLibraryErr = 0) :
    p.callLoadErr funcs n = (n.indeterminate, p) := by
  simp only [callLoadErr, doOnContext_refused (.inl h)]

theorem callLoadErr_ok (hfunc : funcs.loadLibraryErr ≠ 0) (hable : p.able = true)
    (hr : n.loadErr.status = .ok) :
    p.callLoadErr funcs n = (n.loadErr.retval.toInt, { p with mem := n.filled }) := by
  simp only [callLoadErr, doOnContext_ok hfunc hable hr]

theorem callLoadErr_failed (hfunc : funcs.loadLibraryErr ≠ 0) (hable : p.able = true)
    (hr : n.loadErr.status ≠ .ok) :
    p.callLoadErr funcs n = (n.indeterminate, { n.lost with able := false }) := by
  simp only [callLoadErr, doOnContext_failed hfunc hable hr]

theorem collect_aborted (h : p.able = false ∨ n.recv ≠ 0) (funcs : HelperFunctions)
    (buff : BitVec 64) (size : Nat) :
    ∃ p', p.collect funcs n buff size = (.aborted, p') ∧ p'.able = false := by
  obtain ⟨bytes, p', hread, hgone⟩ := readMem_aborted h buff errMsgLen
  exact ⟨p', by simp only [collect, hread], hgone⟩

theorem take_errMsgLen {text : List Byte} (h : text.length = errMsgLen) (size : Nat) :
    text.take (if size < errMsgLen then size else errMsgLen) = text.take size := by
  split
  · rfl
  · rename_i hsize
    rw [List.take_of_length_le (by omega), List.take_of_length_le (by omega)]

/-- The text is read, and the rest depends on the request to free the buffer. -/
theorem collect_read (hable : p.able = true) (hrecv : n.recv = 0) (size : Nat) :
    p.collect funcs n buff size =
      match p.freeBuff funcs n buff with
      | (.value _, p') => (.returned 0 ((p.mem.read buff errMsgLen).take size), p')
      | (_, p') => (.threw, p') := by
  have htake := take_errMsgLen (p.mem.length_read buff errMsgLen) size
  have hzero : toInt32 ((0 : BitVec 64).toNat : Int) = 0 := by simp [toInt32]
  simp only [collect, readMem_ok hable hrecv, hzero, htake, ne_eq, not_true_eq_false, if_false]

theorem collect_freed (hable : p.able = true) (hrecv : n.recv = 0) (hfunc : funcs.freeBuff ≠ 0)
    (hr : n.free.status = .ok) (size : Nat) :
    p.collect funcs n buff size =
      (.returned 0 ((p.mem.read buff errMsgLen).take size),
       { p with live := p.live.erase buff }) := by
  simp only [collect_read hable hrecv, freeBuff, doOnContext_ok hfunc hable hr]

theorem collect_refused (hable : p.able = true) (hrecv : n.recv = 0) (hfunc : funcs.freeBuff = 0)
    (size : Nat) : p.collect funcs n buff size = (.threw, p) := by
  simp only [collect_read hable hrecv, freeBuff, doOnContext_refused (.inl hfunc)]

theorem collect_failed (hable : p.able = true) (hrecv : n.recv = 0) (hfunc : funcs.freeBuff ≠ 0)
    (hr : n.free.status ≠ .ok) (size : Nat) :
    p.collect funcs n buff size = (.threw, { n.lost with able := false }) := by
  simp only [collect_read hable hrecv, freeBuff, doOnContext_failed hfunc hable hr]

theorem allocBuff_ok (hfunc : funcs.allocBuff ≠ 0) (hable : p.able = true)
    (hr : n.alloc.status = .ok) (hne : n.alloc.retval ≠ 0) :
    p.allocBuff funcs n =
      (.value n.alloc.retval, { p with live := insert n.alloc.retval p.live }) := by
  rw [allocBuff, doOnContext_ok hfunc hable hr, if_neg hne]

end Requests

/-! ## The whole function -/

/-- The function gets a buffer from `allocBuff`. -/
def GetsBuffer (p : VeProcess) (funcs : HelperFunctions) (n : Requests) : Prop :=
  p.able = true ∧ funcs.allocBuff ≠ 0 ∧ n.alloc.status = .ok ∧ n.alloc.retval ≠ 0

/-- What is expected of `loadLibraryError` at its end: while the worker is able to execute
    requests, the function returns and the live allocations are those from before. It returns zero
    only with text from the buffer that `load_library_err` has filled. -/
structure Fetches (p : VeProcess) (funcs : HelperFunctions) (n : Requests) (size : Nat)
    (r : Ended × VeProcess) : Prop where
  returns : r.2.able = true → ∃ rv copied, r.1 = .returned rv copied
  live : r.2.able = true → r.2.live = p.live
  filled : ∀ copied, r.1 = .returned 0 copied → p.GetsBuffer funcs n ∧
    funcs.loadLibraryErr ≠ 0 ∧ n.loadErr.status = .ok ∧ 0 ≤ n.loadErr.retval.toInt ∧
    copied = (n.filled.read n.alloc.retval errMsgLen).take size

/-- The condition on the requests after the allocation. If `load_library_err` returns, it does so
    with a value that is not negative, and a buffer that was read can be freed. If it cannot be
    called, a later request takes the worker down. -/
def CleansUp (funcs : HelperFunctions) (n : Requests) : Prop :=
  if funcs.loadLibraryErr = 0 then
    0 ≤ n.indeterminate ∧ (n.recv ≠ 0 ∨ funcs.freeBuff ≠ 0 ∧ n.free.status ≠ .ok)
  else
    n.loadErr.status = .ok →
      0 ≤ n.loadErr.retval.toInt ∧ (n.recv ≠ 0 ∨ funcs.freeBuff ≠ 0)

section Whole
variable {funcs : HelperFunctions} {n : Requests} {p : VeProcess} {size : Nat}
  {r : Ended × VeProcess}

/-- Nothing is expected once the worker is gone, but that the function does not return zero. -/
theorem Fetches.of_gone (hgone : r.2.able = false) (hne : ∀ copied, r.1 ≠ .returned 0 copied) :
    Fetches p funcs n size r where
  returns h := by cases hgone.symm.trans h
  live h := by cases hgone.symm.trans h
  filled copied h := absurd h (hne copied)

/-- Without a buffer the function returns -1 and has changed nothing. -/
theorem fetches_of_no_buffer (h : ¬ p.GetsBuffer funcs n) :
    Fetches p funcs n size (p.loadLibraryError funcs n size) := by
  have hend : ∃ p', p.loadLibraryError funcs n size = (.returned (-1) [], p') ∧
      (p'.able = true → p'.live = p.live) := by
    by_cases hrefused : funcs.allocBuff = 0 ∨ p.able = false
    · exact ⟨p, by simp only [loadLibraryError, allocBuff, doOnContext_refused hrefused], fun _ => rfl⟩
    · obtain ⟨hfunc, hable⟩ := not_or.mp hrefused
      rw [Bool.not_eq_false] at hable
      by_cases hr : n.alloc.status = .ok
      · have hzero : n.alloc.retval = 0 := not_not.mp fun hne => h ⟨hable, hfunc, hr, hne⟩
        refine ⟨p, ?_, fun _ => rfl⟩
        simp only [loadLibraryError, allocBuff, doOnContext_ok hfunc hable hr, hzero, if_true]
      · refine ⟨{ n.lost with able := false }, ?_, nofun⟩
        simp only [loadLibraryError, allocBuff, doOnContext_failed hfunc hable hr]
  obtain ⟨p', hrun, hlive⟩ := hend
  rw [hrun]
  exact ⟨fun _ => ⟨-1, [], rfl⟩, hlive, nofun⟩

/-- The process with the buffer. -/
def withBuffer (p : VeProcess) (n : Requests) : VeProcess :=
  { p with live := insert n.alloc.retval p.live }

theorem loadLibraryError_of_buffer (h : p.GetsBuffer funcs n) :
    p.loadLibraryError funcs n size =
      if ((p.withBuffer n).callLoadErr funcs n).1 < 0 then
        (.returned (-1) [], ((p.withBuffer n).callLoadErr funcs n).2)
      else
        ((p.withBuffer n).callLoadErr funcs n).2.collect funcs n n.alloc.retval size := by
  obtain ⟨hable, hfunc, hr, hne⟩ := h
  simp only [loadLibraryError, allocBuff_ok hfunc hable hr hne, if_neg hne]
  rfl

/-- A buffer that is still allocated at the end is a leak. -/
theorem not_fetches_of_live (hfresh : n.AllocFresh p) (hget : p.GetsBuffer funcs n)
    (hable : r.2.able = true) (hlive : n.alloc.retval ∈ r.2.live) :
    ¬ Fetches p funcs n size r := by
  intro h
  obtain ⟨-, -, hr, hne⟩ := hget
  exact hfresh hr hne (h.live hable ▸ hlive)

/-- The part after `load_library_err`, while the worker is able to execute requests: the transfer
    takes the worker down, or the buffer can be freed and, if it is, the text is the right one. -/
theorem collect_fetches_iff {q : VeProcess} (hfresh : n.AllocFresh p) (hget : p.GetsBuffer funcs n)
    (hable : q.able = true) (hlive : q.live = insert n.alloc.retval p.live) :
    Fetches p funcs n size (q.collect funcs n n.alloc.retval size) ↔
      n.recv ≠ 0 ∨ funcs.freeBuff ≠ 0 ∧ (n.free.status = .ok →
        funcs.loadLibraryErr ≠ 0 ∧ n.loadErr.status = .ok ∧ 0 ≤ n.loadErr.retval.toInt ∧
        (q.mem.read n.alloc.retval errMsgLen).take size =
          (n.filled.read n.alloc.retval errMsgLen).take size) := by
  have hmem : n.alloc.retval ∈ q.live := hlive ▸ Finset.mem_insert_self _ _
  by_cases hrecv : n.recv = 0
  · by_cases hfree : funcs.freeBuff = 0
    · rw [collect_refused hable hrecv hfree]
      exact iff_of_false (not_fetches_of_live hfresh hget hable hmem) (by simp [hrecv, hfree])
    · by_cases hr : n.free.status = .ok
      · rw [collect_freed hable hrecv hfree hr]
        constructor
        · intro h
          obtain ⟨-, htext⟩ := h.filled _ rfl
          exact .inr ⟨hfree, fun _ => htext⟩
        · intro h
          have htext := (h.resolve_left (not_not.mpr hrecv)).2 hr
          have herase : q.live.erase n.alloc.retval = p.live :=
            hlive ▸ Finset.erase_insert (hfresh hget.2.2.1 hget.2.2.2)
          refine ⟨fun _ => ⟨_, _, rfl⟩, fun _ => herase, fun copied heq => ?_⟩
          cases heq
          exact ⟨hget, htext⟩
      · rw [collect_failed hable hrecv hfree hr]
        exact iff_of_true (.of_gone rfl nofun) (.inr ⟨hfree, fun h => absurd h hr⟩)
  · obtain ⟨q', hrun, hgone⟩ := collect_aborted (p := q) (.inr hrecv) funcs n.alloc.retval size
    rw [hrun]
    exact iff_of_true (.of_gone hgone nofun) (.inl hrecv)

/-- The function with the buffer, after a call of `load_library_err` that left the worker able to
    execute requests and `rv` with the value `rv`. -/
theorem fetches_called_iff {q : VeProcess} {rv : Int} (hfresh : n.AllocFresh p)
    (hget : p.GetsBuffer funcs n) (hcall : (p.withBuffer n).callLoadErr funcs n = (rv, q))
    (hable : q.able = true) (hlive : q.live = insert n.alloc.retval p.live) :
    Fetches p funcs n size (p.loadLibraryError funcs n size) ↔
      0 ≤ rv ∧ Fetches p funcs n size (q.collect funcs n n.alloc.retval size) := by
  rw [loadLibraryError_of_buffer hget, hcall]
  by_cases hrv : rv < 0
  · have hmem : n.alloc.retval ∈ q.live := hlive ▸ Finset.mem_insert_self _ _
    rw [if_pos hrv]
    exact iff_of_false (not_fetches_of_live hfresh hget hable hmem) fun h => by omega
  · rw [if_neg hrv]
    exact ⟨fun h => ⟨by omega, h⟩, fun h => h.2⟩

/-- With the buffer, and `load_library_err` without an address. -/
theorem fetches_refused_iff (hfresh : n.AllocFresh p) (hget : p.GetsBuffer funcs n)
    (hfunc : funcs.loadLibraryErr = 0) :
    Fetches p funcs n size (p.loadLibraryError funcs n size) ↔
      0 ≤ n.indeterminate ∧ (n.recv ≠ 0 ∨ funcs.freeBuff ≠ 0 ∧ n.free.status ≠ .ok) := by
  rw [fetches_called_iff hfresh hget (callLoadErr_refused hfunc) hget.1 rfl,
    collect_fetches_iff (q := p.withBuffer n) hfresh hget hget.1 rfl]
  simp only [hfunc, ne_eq, not_true_eq_false, false_and, imp_false]

/-- With the buffer, and a call of `load_library_err` that returns. -/
theorem fetches_ok_iff (hfresh : n.AllocFresh p) (hget : p.GetsBuffer funcs n)
    (hfunc : funcs.loadLibraryErr ≠ 0) (hok : n.loadErr.status = .ok) :
    Fetches p funcs n size (p.loadLibraryError funcs n size) ↔
      0 ≤ n.loadErr.retval.toInt ∧ (n.recv ≠ 0 ∨ funcs.freeBuff ≠ 0) := by
  rw [fetches_called_iff hfresh hget (callLoadErr_ok hfunc hget.1 hok) hget.1 rfl,
    collect_fetches_iff (q := { p.withBuffer n with mem := n.filled }) hfresh hget hget.1 rfl]
  refine and_congr_right fun hpos => or_congr_right ⟨fun h => h.1, fun hfree => ⟨hfree, fun _ => ?_⟩⟩
  exact ⟨hfunc, hok, hpos, rfl⟩

/-- With the buffer, and a call of `load_library_err` that takes the worker down. -/
theorem fetches_of_failed (hget : p.GetsBuffer funcs n) (hfunc : funcs.loadLibraryErr ≠ 0)
    (hr : n.loadErr.status ≠ .ok) :
    Fetches p funcs n size (p.loadLibraryError funcs n size) := by
  have hcall : (p.withBuffer n).callLoadErr funcs n =
      (n.indeterminate, { n.lost with able := false }) := callLoadErr_failed hfunc hget.1 hr
  rw [loadLibraryError_of_buffer hget, hcall]
  split
  · exact .of_gone rfl nofun
  · obtain ⟨p', hrun, hgone⟩ := collect_aborted (p := { n.lost with able := false }) (n := n)
      (.inl rfl) funcs n.alloc.retval size
    rw [hrun]
    exact .of_gone hgone nofun

/-- Fetching the error text leaks nothing and reports honestly exactly if there is no buffer or the
    requests after its allocation lead to its release. -/
theorem loadLibraryError_fetches_iff (hfresh : n.AllocFresh p) :
    Fetches p funcs n size (p.loadLibraryError funcs n size) ↔
      (p.GetsBuffer funcs n → CleansUp funcs n) := by
  by_cases hget : p.GetsBuffer funcs n
  · unfold CleansUp
    by_cases hfunc : funcs.loadLibraryErr = 0
    · rw [if_pos hfunc, fetches_refused_iff hfresh hget hfunc]
      exact ⟨fun h _ => h, fun h => h hget⟩
    · rw [if_neg hfunc]
      by_cases hok : n.loadErr.status = .ok
      · rw [fetches_ok_iff hfresh hget hfunc hok]
        exact ⟨fun h _ _ => h, fun h => h hget hok⟩
      · exact iff_of_true (fetches_of_failed hget hfunc hok) fun _ h => absurd h hok
  · exact iff_of_true (fetches_of_no_buffer hget) fun h => absurd h hget

end Whole

/-- A table in which all the helper functions have an address. -/
def helperFunctions : HelperFunctions := ⟨0x1000, 0x1100, 0x1200⟩

/-- A process with one live allocation. -/
def oneLive : VeProcess := ⟨true, {0x5000}, fun _ => 0⟩

/-- Requests that all complete: the buffer is at 0x7000, and `load_library_err` returns `ret` and
    leaves a text of the letter A. -/
def completing (ret : Int) : Requests where
  alloc := ⟨0x7000, .ok⟩
  loadErr := ⟨toWord ret, .ok⟩
  filled := fun _ => 65
  recv := 0
  free := ⟨0, .ok⟩
  lost := oneLive
  indeterminate := 0

/-- The text is there, and 16 bytes of it are copied. -/
theorem loadLibraryError_fetches_text :
    (completing 0).AllocFresh oneLive ∧
      Fetches oneLive helperFunctions (completing 0) 16
        (oneLive.loadLibraryError helperFunctions (completing 0) 16) := by
  have hfresh : (completing 0).AllocFresh oneLive := fun _ _ => by decide
  refine ⟨hfresh, (loadLibraryError_fetches_iff hfresh).mpr fun _ => ?_⟩
  simp [CleansUp, helperFunctions, completing, toWord]

/-- When `load_library_err` returns -1 the buffer stays allocated, with the worker ready for further
    requests. Without an address for it, the function returns zero with text that it has not
    written. -/
theorem loadLibraryError_leaks :
    let leaked := oneLive.loadLibraryError helperFunctions (completing (-1)) 16
    let unfilled := oneLive.loadLibraryError { helperFunctions with loadLibraryErr := 0 }
      (completing 0) 16
    (leaked.1 = .returned (-1) [] ∧ leaked.2.able = true ∧ leaked.2.live = {0x5000, 0x7000} ∧
      ¬ Fetches oneLive helperFunctions (completing (-1)) 16 leaked) ∧
    (∃ copied, unfilled.1 = .returned 0 copied) ∧
      ¬ Fetches oneLive { helperFunctions with loadLibraryErr := 0 } (completing 0) 16 unfilled := by
  intro leaked unfilled
  refine ⟨⟨rfl, rfl, by decide, fun h => ?_⟩, ⟨_, rfl⟩, fun h => ?_⟩
  · exact absurd (h.live rfl) (by decide)
  · obtain ⟨-, hne, -⟩ := h.filled _ rfl
    exact hne rfl

end VeProcess

end Veo
