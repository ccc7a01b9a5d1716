-- SUMMARY: The ledger of the VE heap: every live allocation has one holder, and which buffers are left behind, over whole runs.
import Veo.ProcHandle.Heap
import Veo.Lib.Ledger

/-!
# The ledger of the VE heap

What a step does to the allocations is said once, by `Effect`. While the worker is able to execute
requests, the ledger is kept by every step. Nothing is said of the heap once the worker is gone.
-/

namespace Veo

open Transition Ledger

variable {T : Type}

/-! ## Requests that leave the worker able to execute requests -/

namespace VeProcess

section Able
variable {funcs : HelperFunctions} {n : Requests} {p lost : VeProcess} {func buff : BitVec 64}
  {r : CmdResult} {effect : VeProcess → VeProcess}

/-- The request was refused for want of an address, or the VE function has returned. -/
theorem doOnContext_able (h : (p.doOnContext func r effect lost).2.able = true) :
    p.able = true ∧ (func = 0 ∧ p.doOnContext func r effect lost = (.threw, p) ∨
      func ≠ 0 ∧ r.status = .ok ∧
        p.doOnContext func r effect lost = (.value r.retval, effect p)) := by
  by_cases hable : p.able = true
  · refine ⟨hable, ?_⟩
    by_cases hfunc : func = 0
    · exact .inl ⟨hfunc, doOnContext_refused (.inl hfunc)⟩
    · by_cases hr : r.status = .ok
      · exact .inr ⟨hfunc, hr, doOnContext_ok hfunc hable hr⟩
      · rw [doOnContext_failed hfunc hable hr] at h
        cases h
  · rw [doOnContext_refused (.inr (by simpa using hable))] at h
    exact absurd h hable

theorem allocBuff_able (h : (p.allocBuff funcs n).2.able = true) :
    p.able = true ∧ (p.allocBuff funcs n = (.threw, p) ∨
      n.alloc.status = .ok ∧ p.allocBuff funcs n = (.value n.alloc.retval,
        if n.alloc.retval = 0 then p else { p with live := insert n.alloc.retval p.live })) := by
  obtain ⟨hable, hcase⟩ := doOnContext_able h
  exact ⟨hable, hcase.imp And.right And.right⟩

theorem freeBuff_able (h : (p.freeBuff funcs n buff).2.able = true) :
    p.able = true ∧ (funcs.freeBuff = 0 ∧ p.freeBuff funcs n buff = (.threw, p) ∨
      funcs.freeBuff ≠ 0 ∧
        p.freeBuff funcs n buff = (.value n.free.retval, { p with live := p.live.erase buff })) := by
  obtain ⟨hable, hcase⟩ := doOnContext_able h
  exact ⟨hable, hcase.imp_right fun hok => ⟨hok.1, hok.2.2⟩⟩

theorem callLoadErr_able (h : (p.callLoadErr funcs n).2.able = true) :
    p.able = true ∧ ∃ mem, p.callLoadErr funcs n =
      (if funcs.loadLibraryErr = 0 then n.indeterminate else n.loadErr.retval.toInt,
       { p with mem := mem }) := by
  by_cases hable : p.able = true
  · refine ⟨hable, ?_⟩
    by_cases hfunc : funcs.loadLibraryErr = 0
    · exact ⟨p.mem, by rw [callLoadErr_refused hfunc, if_pos hfunc]⟩
    · by_cases hr : n.loadErr.status = .ok
      · exact ⟨n.filled, by rw [callLoadErr_ok hfunc hable hr, if_neg hfunc]⟩
      · rw [callLoadErr_failed hfunc hable hr] at h
        cases h
  · simp only [callLoadErr, doOnContext_refused (.inr (by simpa using hable))] at h
    exact absurd h hable

theorem readMem_able {size : Nat} (h : (p.readMem n buff size).2.2.able = true) :
    p.able = true ∧ p.readMem n buff size = (.value 0, p.mem.read buff size, p) := by
  by_cases hgone : p.able = false ∨ n.recv ≠ 0
  · obtain ⟨bytes, p', hread, hp'⟩ := readMem_aborted hgone buff size
    rw [hread, hp'] at h
    cases h
  · obtain ⟨hable, hrecv⟩ := not_or.mp hgone
    rw [Bool.not_eq_false] at hable
    exact ⟨hable, readMem_ok hable (not_not.mp hrecv) size⟩

end Able

end VeProcess

namespace HeapSys

/-! ## What a step does -/

/-- The buffers of the calls of `loadLibraryError`. -/
def inCall (s : HeapSys T) (t : T) : Option (BitVec 64) := (s.pc t).buffer

section Effect
variable [DecidableEq T]

/-- What a step does to the allocations, to their holders and to the buffers of the calls, with the
    number of buffers that it leaves behind. -/
inductive Effect (s s' : HeapSys T) : Nat → Prop where
  | keep (hlive : s'.ve.live = s.ve.live) (hown : s'.own = s.own) (hcall : s'.inCall = s.inCall) :
      Effect s s' 0
  | gain (a : BitVec 64) (h : Holder T) (hne : a ≠ 0) (hfresh : a ∉ s.ve.live)
      (hholder : h = .program ∨ h = .ve) (hlive : s'.ve.live = insert a s.ve.live)
      (hown : s'.own = Function.update s.own a (some h)) (hcall : s'.inCall = s.inCall) :
      Effect s s' 0
  | take (t : T) (a : BitVec 64) (hne : a ≠ 0) (hfresh : a ∉ s.ve.live)
      (hempty : s.inCall t = none) (hlive : s'.ve.live = insert a s.ve.live)
      (hown : s'.own = Function.update s.own a (some (.call t)))
      (hcall : s'.inCall = Function.update s.inCall t (some a)) : Effect s s' 0
  | drop (a : BitVec 64) (hholder : a = 0 ∨ s.own a = some .program ∨ s.own a = some .ve)
      (hlive : s'.ve.live = s.ve.live.erase a) (hown : s'.own = Function.update s.own a none)
      (hcall : s'.inCall = s.inCall) : Effect s s' 0
  | letGo (t : T) (a : BitVec 64) (hheld : s.inCall t = some a)
      (hlive : s'.ve.live = s.ve.live.erase a) (hown : s'.own = Function.update s.own a none)
      (hcall : s'.inCall = Function.update s.inCall t none) : Effect s s' 0
  | lose (t : T) (a : BitVec 64) (hheld : s.inCall t = some a) (hlive : s'.ve.live = s.ve.live)
      (hown : s'.own = Function.update s.own a (some .lost))
      (hcall : s'.inCall = Function.update s.inCall t none) : Effect s s' 1

variable {V : Veorun} {tab : VeTable} {s s' : HeapSys T} {a : HeapAct T} {t : T} {n : Requests}

theorem inCall_go (s : HeapSys T) (t : T) (p : VeProcess) (pc : HeapPc) :
    (s.go t p pc).inCall = Function.update s.inCall t pc.buffer := by
  funext u
  by_cases hu : u = t
  · simp [inCall, go, hu]
  · simp [inCall, go, hu]

omit [DecidableEq T] in
theorem inCall_setOwn (s : HeapSys T) (a : BitVec 64) (h : Option (Holder T)) :
    (s.setOwn a h).inCall = s.inCall := rfl

/-- A step of a thread that holds the same buffer before and after. -/
theorem inCall_go_same {p : VeProcess} {pc : HeapPc} (h : (s.pc t).buffer = pc.buffer) :
    (s.go t p pc).inCall = s.inCall := by
  rw [inCall_go, ← h]
  exact Function.update_eq_self t s.inCall

/-- A call that returns has no buffer any more. -/
theorem inCall_letGo (p : VeProcess) (r : HeapRet) (a : BitVec 64) (h : Option (Holder T)) :
    ((s.go t p (.done r)).setOwn a h).inCall = Function.update s.inCall t none := by
  rw [inCall_setOwn, inCall_go]
  rfl

theorem afterLoad_buffer (V : Veorun) (tab : VeTable) (r : Ret) :
    (afterLoad V tab r).buffer = none := by
  cases r with
  | value handle =>
      simp only [afterLoad]
      split <;> rfl
  | _ => rfl

/-- A call with one request holds no buffer. -/
theorem inCall_go_done (hidle : s.pc t = .idle) (p : VeProcess) (r : HeapRet) :
    (s.go t p (.done r)).inCall = s.inCall := inCall_go_same (by rw [hidle]; rfl)

theorem allocMem_ve (tab : VeTable) (s : HeapSys T) (t : T) (n : Requests) :
    (s.allocMem tab t n).ve = (s.ve.allocBuff tab.toHelperFunctions n).2 := by
  unfold allocMem
  split
  · rename_i heq
    rw [heq]
    split <;> rfl
  · rename_i heq
    rw [heq]
    rfl

theorem allocMem_effect (hidle : s.pc t = .idle) (hfresh : n.AllocFresh s.ve)
    (hable : (s.allocMem tab t n).ve.able = true) :
    s.ve.able = true ∧ Effect s (s.allocMem tab t n) 0 := by
  rw [allocMem_ve] at hable
  obtain ⟨hbefore, hcase⟩ := VeProcess.allocBuff_able hable
  refine ⟨hbefore, ?_⟩
  unfold allocMem
  rcases hcase with hrefused | ⟨hr, hok⟩
  · rw [hrefused]
    exact .keep rfl rfl (inCall_go_done hidle _ _)
  · rw [hok]
    by_cases hzero : n.alloc.retval = 0
    · simp only [hzero, if_true]
      exact .keep rfl rfl (inCall_go_done hidle _ _)
    · simp only [hzero, if_false]
      refine .gain _ .program hzero (hfresh hr hzero) (.inl rfl) rfl rfl ?_
      rw [inCall_setOwn]
      exact inCall_go_done hidle _ _

theorem freeMem_ve (tab : VeTable) (s : HeapSys T) (t : T) (addr : BitVec 64) (n : Requests) :
    (s.freeMem tab t addr n).ve = (s.ve.freeBuff tab.toHelperFunctions n addr).2 := by
  unfold freeMem
  split <;> (rename_i heq; rw [heq]; rfl)

theorem freeMem_effect {addr : BitVec 64} (hidle : s.pc t = .idle)
    (hholds : addr = 0 ∨ s.own addr = some .program)
    (hable : (s.freeMem tab t addr n).ve.able = true) :
    s.ve.able = true ∧ Effect s (s.freeMem tab t addr n) 0 := by
  rw [freeMem_ve] at hable
  obtain ⟨hbefore, hcase⟩ := VeProcess.freeBuff_able hable
  refine ⟨hbefore, ?_⟩
  unfold freeMem
  rcases hcase with ⟨-, hrefused⟩ | ⟨-, hok⟩
  · rw [hrefused]
    exact .keep rfl rfl (inCall_go_done hidle _ _)
  · rw [hok]
    refine .drop addr (hholds.imp_right .inl) rfl rfl ?_
    rw [inCall_setOwn]
    exact inCall_go_done hidle _ _

theorem load_effect {libname : List Byte} {r : CmdResult} {mem : WordMem 64}
    (hidle : s.pc t = .idle) (hable : (s.load V tab t libname r mem n).ve.able = true) :
    s.ve.able = true ∧ Effect s (s.load V tab t libname r mem n) 0 := by
  revert hable
  unfold load
  split
  · intro hable
    exact ⟨hable, .keep rfl rfl (inCall_go_done hidle _ _)⟩
  · intro hable
    obtain ⟨hbefore, hcase⟩ := VeProcess.doOnContext_able hable
    refine ⟨hbefore, .keep ?_ rfl (inCall_go_same ?_)⟩
    · rcases hcase with ⟨-, hend⟩ | ⟨-, -, hend⟩ <;> exact congrArg (·.2.live) hend
    · rw [hidle, afterLoad_buffer]
      rfl

/-! ### The requests of `loadLibraryError` -/

theorem errAlloc_ve (tab : VeTable) (s : HeapSys T) (t : T) (n : Requests) :
    (s.errAlloc tab t n).ve = (s.ve.allocBuff tab.toHelperFunctions n).2 := by
  unfold errAlloc
  split
  · rename_i heq
    rw [heq]
    split <;> rfl
  · rename_i heq
    rw [heq]
    rfl

theorem errAlloc_effect (hempty : s.inCall t = none) (hfresh : n.AllocFresh s.ve)
    (hable : (s.errAlloc tab t n).ve.able = true) :
    s.ve.able = true ∧ Effect s (s.errAlloc tab t n) 0 := by
  rw [errAlloc_ve] at hable
  obtain ⟨hbefore, hcase⟩ := VeProcess.allocBuff_able hable
  refine ⟨hbefore, ?_⟩
  unfold errAlloc
  rcases hcase with hrefused | ⟨hr, hok⟩
  · rw [hrefused]
    exact .keep rfl rfl (inCall_go_same hempty)
  · rw [hok]
    by_cases hzero : n.alloc.retval = 0
    · simp only [hzero, if_true]
      exact .keep rfl rfl (inCall_go_same hempty)
    · simp only [hzero, if_false]
      refine .take t _ hzero (hfresh hr hzero) hempty rfl rfl ?_
      rw [inCall_setOwn, inCall_go]
      rfl

variable {buff : BitVec 64}

theorem errCall_effect (hheld : s.inCall t = some buff)
    (hable : (s.errCall tab t n buff).ve.able = true) :
    s.ve.able = true ∧ Effect s (s.errCall tab t n buff)
      (if (if tab.loadLibraryErr = 0 then n.indeterminate else n.loadErr.retval.toInt) < 0
        then 1 else 0) := by
  have hve : (s.errCall tab t n buff).ve = (s.ve.callLoadErr tab.toHelperFunctions n).2 := by
    unfold errCall
    dsimp only
    split <;> rfl
  rw [hve] at hable
  obtain ⟨hbefore, mem, hend⟩ := VeProcess.callLoadErr_able hable
  refine ⟨hbefore, ?_⟩
  generalize (if tab.loadLibraryErr = 0 then n.indeterminate
    else n.loadErr.retval.toInt) = rv at hend ⊢
  simp only [errCall, hend]
  split
  · exact .lose t buff hheld rfl rfl (inCall_letGo _ _ _ _)
  · exact .keep rfl rfl (inCall_go_same hheld)

theorem errRead_effect (hheld : s.inCall t = some buff)
    (hable : (s.errRead t n buff).ve.able = true) :
    s.ve.able = true ∧ Effect s (s.errRead t n buff) 0 := by
  have hve : (s.errRead t n buff).ve = (s.ve.readMem n buff errMsgLen).2.2 := by
    unfold errRead
    split
    · rename_i heq
      rw [heq]
      split <;> rfl
    · rename_i heq
      rw [heq]
  rw [hve] at hable
  obtain ⟨hbefore, hend⟩ := VeProcess.readMem_able hable
  refine ⟨hbefore, ?_⟩
  -- a transfer that completes returns zero
  have hzero : toInt32 ((0 : BitVec 64).toNat : Int) = 0 := by simp [toInt32]
  simp only [errRead, hend, hzero, ne_eq, not_true_eq_false, if_false]
  exact .keep rfl rfl (inCall_go_same hheld)

theorem errFree_effect (hheld : s.inCall t = some buff)
    (hable : (s.errFree tab t n buff).ve.able = true) :
    s.ve.able = true ∧ Effect s (s.errFree tab t n buff) (if tab.freeBuff = 0 then 1 else 0) := by
  have hve : (s.errFree tab t n buff).ve = (s.ve.freeBuff tab.toHelperFunctions n buff).2 := by
    unfold errFree
    split <;> (rename_i heq; rw [heq]; rfl)
  rw [hve] at hable
  obtain ⟨hbefore, hcase⟩ := VeProcess.freeBuff_able hable
  refine ⟨hbefore, ?_⟩
  unfold errFree
  rcases hcase with ⟨hfunc, hrefused⟩ | ⟨hfunc, hok⟩
  · rw [hrefused, if_pos hfunc]
    exact .lose t buff hheld rfl rfl (inCall_letGo _ _ _ _)
  · rw [hok, if_neg hfunc]
    exact .letGo t buff hheld rfl rfl (inCall_letGo _ _ _ _)

theorem next_effect (hfresh : s.pc t = .errAlloc → n.AllocFresh s.ve)
    (h : s.next tab t n = some s') (hable : s'.ve.able = true) :
    s.ve.able = true ∧ Effect s s' (if s.leaks tab (.next t n) then 1 else 0) := by
  have hheld : s.inCall t = (s.pc t).buffer := rfl
  cases hpc : s.pc t with
  | idle =>
      simp only [next, hpc] at h
      cases h
  | errAlloc =>
      simp only [next, hpc] at h
      cases h
      simp only [leaks, hpc]
      exact errAlloc_effect (hheld.trans (by rw [hpc]; rfl)) (hfresh hpc) hable
  | errCall buff =>
      simp only [next, hpc] at h
      cases h
      simp only [leaks, hpc, decide_eq_true_eq]
      exact errCall_effect (hheld.trans (by rw [hpc]; rfl)) hable
  | errRead buff =>
      simp only [next, hpc] at h
      cases h
      simp only [leaks, hpc]
      exact errRead_effect (hheld.trans (by rw [hpc]; rfl)) hable
  | errFree buff errMsg =>
      simp only [next, hpc] at h
      cases h
      simp only [leaks, hpc, decide_eq_true_eq]
      exact errFree_effect (hheld.trans (by rw [hpc]; rfl)) hable
  | done r =>
      simp only [next, hpc] at h
      cases h
      simp only [leaks, hpc]
      exact ⟨hable, .keep rfl rfl (inCall_go_same (by rw [hpc]; rfl))⟩

theorem step_effect (h : s.step V tab a = some s') (hfresh : s.fresh a = true)
    (hable : s'.ve.able = true) :
    s.ve.able = true ∧ Effect s s' (if s.leaks tab a then 1 else 0) := by
  unfold step at h
  split at h
  · cases h
  cases a with
  | alloc t n =>
      dsimp only at h
      split at h
      · rename_i hidle
        cases h
        exact allocMem_effect hidle (of_decide_eq_true hfresh) hable
      · cases h
  | free t addr n =>
      dsimp only at h
      split at h
      · rename_i hc
        cases h
        exact freeMem_effect hc.1 hc.2 hable
      · cases h
  | load t libname r mem n =>
      dsimp only at h
      split at h
      · rename_i hidle
        cases h
        exact load_effect hidle hable
      · cases h
  | next t n => exact next_effect (of_decide_eq_true hfresh) h hable
  | veAlloc a =>
      dsimp only at h
      split at h
      · cases h
      · rename_i hc
        obtain ⟨hne, hnew⟩ := not_or.mp hc
        cases h
        exact ⟨hable, .gain a .ve hne hnew (.inr rfl) rfl rfl rfl⟩
  | veFree a =>
      dsimp only at h
      split at h
      · rename_i hown
        cases h
        exact ⟨hable, .drop a (.inr (.inr hown)) rfl rfl rfl⟩
      · cases h
  | veWrite mem =>
      cases h
      exact ⟨hable, .keep rfl rfl rfl⟩
  | fail after =>
      cases h
      cases hable

end Effect

/-! ## Runs -/

/-- The ledger of the heap: it lists the live allocations, and it agrees with the calls of
    `loadLibraryError` on their buffers. -/
structure Kept (s : HeapSys T) : Prop where
  balanced : Balanced s.ve.live s.own
  agrees : Agrees Holder.call s.own s.inCall
  null : s.own 0 = none

theorem call_injective : Function.Injective (Holder.call : T → Holder T) :=
  fun _ _ h => by cases h; rfl

section Runs
variable [DecidableEq T] {V : Veorun} {tab : VeTable} {s s' : HeapSys T} {k : Nat}

/-- The buffers that were left behind. -/
def lost (s : HeapSys T) : Finset (BitVec 64) := held s.ve.live s.own .lost

omit [DecidableEq T] in
theorem Kept.free (hs : s.Kept) {a : BitVec 64} (ha : a ∉ s.ve.live) : s.own a = none := by
  by_contra hne
  exact ha ((hs.balanced a).mpr hne)

omit [DecidableEq T] in
/-- The ledger after a change at one address. -/
theorem Kept.of_update {a : BitVec 64} {v : Option (Holder T)} (hs : s.Kept)
    (hown : s'.own = Function.update s.own a v) (hnull : a = 0 → v = none)
    (hbalanced : Balanced s'.ve.live (Function.update s.own a v))
    (hagrees : Agrees Holder.call (Function.update s.own a v) s'.inCall) : s'.Kept := by
  refine ⟨hown ▸ hbalanced, hown ▸ hagrees, ?_⟩
  rw [hown]
  by_cases ha : a = 0
  · rw [ha, Function.update_self, hnull ha]
  · rw [Function.update_of_ne (Ne.symm ha)]
    exact hs.null

omit [DecidableEq T] in
/-- The buffer of a call is live and not null. -/
theorem Kept.buffer (hs : s.Kept) {t : T} {a : BitVec 64} (hheld : s.inCall t = some a) :
    s.own a = some (.call t) ∧ a ≠ 0 ∧ a ∈ s.ve.live := by
  have hown : s.own a = some (.call t) := (hs.agrees t a).mpr hheld
  refine ⟨hown, fun h => ?_, (hs.balanced a).mpr (by simp [hown])⟩
  cases hs.null.symm.trans (h ▸ hown)

theorem lost_of_update {a : BitVec 64} {v : Option (Holder T)}
    (hown : s'.own = Function.update s.own a v)
    (hlive : ∀ b, b ≠ a → (b ∈ s'.ve.live ↔ b ∈ s.ve.live)) (hold : s.own a ≠ some .lost)
    (hnew : v ≠ some .lost) : s'.lost = s.lost := by
  rw [lost, hown]
  exact held_update hlive hold hnew

/-- What one step does to the ledger and to the buffers that were left behind. -/
def Goes (s s' : HeapSys T) (k : Nat) : Prop :=
  s'.Kept ∧ s'.lost.card = s.lost.card + k ∧ s.lost ⊆ s'.lost

theorem Goes.of_same (hkept : s'.Kept) (hlost : s'.lost = s.lost) : Goes s s' 0 :=
  ⟨hkept, congrArg Finset.card hlost, hlost.superset⟩

theorem Kept.effect (hs : s.Kept) (h : Effect s s' k) : Goes s s' k := by
  cases h with
  | keep hlive hown hcall =>
      refine .of_same ⟨?_, ?_, ?_⟩ (by rw [lost, lost, hlive, hown])
      · rw [hlive, hown]
        exact hs.balanced
      · rw [hown, hcall]
        exact hs.agrees
      · rw [hown]
        exact hs.null
  | gain a h hne hfresh hholder hlive hown hcall =>
      have hnone := hs.free hfresh
      refine .of_same (hs.of_update hown (absurd · hne) ?_ ?_) (lost_of_update hown ?_ ?_ ?_)
      · rw [hlive]
        exact hs.balanced.acquire a h
      · rw [hcall]
        exact hs.agrees.update (by simp [hnone]) (by rcases hholder with rfl | rfl <;> simp)
      · simp +contextual [hlive]
      · simp [hnone]
      · rcases hholder with rfl | rfl <;> simp
  | take t a hne hfresh hempty hlive hown hcall =>
      have hnone := hs.free hfresh
      refine .of_same (hs.of_update hown (absurd · hne) ?_ ?_) (lost_of_update hown ?_ ?_ ?_)
      · rw [hlive]
        exact hs.balanced.acquire a _
      · rw [hcall]
        exact hs.agrees.take call_injective (by simp [hnone]) hempty
      · simp +contextual [hlive]
      · simp [hnone]
      · simp
  | drop a hholder hlive hown hcall =>
      have hout : s.own a = none ∨ s.own a = some .program ∨ s.own a = some .ve :=
        hholder.imp_left fun (h : a = 0) => h ▸ hs.null
      refine .of_same (hs.of_update hown (fun _ => rfl) ?_ ?_) (lost_of_update hown ?_ ?_ ?_)
      · rw [hlive]
        exact hs.balanced.release a
      · rw [hcall]
        exact hs.agrees.update (by rcases hout with h | h | h <;> simp [h]) (by simp)
      · simp +contextual [hlive]
      · rcases hout with h | h | h <;> simp [h]
      · simp
  | letGo t a hheld hlive hown hcall =>
      obtain ⟨hcaller, hne, -⟩ := hs.buffer hheld
      refine .of_same (hs.of_update hown (absurd · hne) ?_ ?_) (lost_of_update hown ?_ ?_ ?_)
      · rw [hlive]
        exact hs.balanced.release a
      · rw [hcall]
        exact hs.agrees.letGo call_injective hheld (by simp)
      · simp +contextual [hlive]
      · simp [hcaller]
      · simp
  | lose t a hheld hlive hown hcall =>
      obtain ⟨hcaller, hne, hmem⟩ := hs.buffer hheld
      refine ⟨hs.of_update hown (absurd · hne) ?_ ?_, ?_, fun b hb => ?_⟩
      · rw [hlive]
        exact hs.balanced.transfer hmem _
      · rw [hcall]
        exact hs.agrees.letGo call_injective hheld (by simp)
      · rw [lost, hlive, hown]
        exact card_held_transfer hmem (by simp [hcaller])
      · obtain ⟨hb, hlost⟩ := mem_held.mp hb
        refine mem_held.mpr ⟨hlive ▸ hb, ?_⟩
        rw [hown, Function.update_of_ne, hlost]
        rintro rfl
        cases hcaller.symm.trans hlost

/-- A worker that is gone does not come back. -/
theorem able_of_run {as : List (HeapAct T)} (h : runList (step V tab) fresh s as = some s')
    (hable : s'.ve.able = true) : s.ve.able = true := by
  induction as generalizing s with
  | nil =>
      cases h
      exact hable
  | cons a as ih =>
      unfold runList at h
      split at h
      · rename_i hfresh
        obtain ⟨m, hstep, hrest⟩ := Option.bind_eq_some_iff.mp h
        exact (step_effect hstep hfresh (ih hrest)).1
      · cases h

theorem Kept.run (hs : s.Kept) {as : List (HeapAct T)}
    (h : runList (step V tab) fresh s as = some s') (hable : s'.ve.able = true) :
    Goes s s' (s.leakCount V tab as) := by
  induction as generalizing s with
  | nil =>
      cases h
      exact .of_same hs rfl
  | cons a as ih =>
      unfold runList at h
      split at h
      · rename_i hfresh
        obtain ⟨m, hstep, hrest⟩ := Option.bind_eq_some_iff.mp h
        have hcount : s.leakCount V tab (a :: as) =
            (if s.leaks tab a then 1 else 0) + m.leakCount V tab as := by
          simp only [leakCount, hstep]
        obtain ⟨-, heffect⟩ := step_effect hstep hfresh (able_of_run hrest hable)
        obtain ⟨hkept, hcard, hsub⟩ := hs.effect heffect
        obtain ⟨hkept', hcard', hsub'⟩ := ih hkept hrest
        refine ⟨hkept', ?_, hsub.trans hsub'⟩
        omega
      · cases h

omit [DecidableEq T] in
theorem init_kept {p : VeProcess} (hnull : 0 ∉ p.live) : (init p : HeapSys T).Kept where
  balanced a := by
    by_cases ha : a ∈ p.live <;> simp [init, ha]
  agrees t a := by
    by_cases ha : a ∈ p.live <;> simp [init, inCall, HeapPc.buffer, ha]
  null := if_neg hnull

/-- Whichever threads allocate, free and load libraries in whatever order, while the worker is able
    to execute requests: every live allocation has exactly one holder, the calls of
    `loadLibraryError` hold the buffers that they are working with, and no others, as many buffers
    are left behind as there were steps that leave one behind, and these stay allocated. If no call
    is under way, the live allocations are those of the VE code, those that the program got and has
    not freed, and those left behind. -/
theorem heap_ledger {p : VeProcess} {as : List (HeapAct T)} (hnull : 0 ∉ p.live)
    (hrun : runList (step V tab) fresh (init p) as = some s) (hable : s.ve.able = true) :
    (∀ a, a ∈ s.ve.live ↔ s.own a ≠ none) ∧
    (∀ t a, s.own a = some (.call t) ↔ (s.pc t).buffer = some a) ∧
    s.lost.card = (init p : HeapSys T).leakCount V tab as ∧
    (∀ bs s', runList (step V tab) fresh s bs = some s' → s'.ve.able = true → s.lost ⊆ s'.lost) ∧
    ((∀ t, s.pc t = .idle) →
      s.ve.live = held s.ve.live s.own .ve ∪ held s.ve.live s.own .program ∪ s.lost) := by
  obtain ⟨hkept, hcard, -⟩ := (init_kept hnull).run hrun hable
  have hzero : (init p : HeapSys T).lost.card = 0 := by
    refine Finset.card_eq_zero.mpr (Finset.filter_eq_empty_iff.mpr fun a ha => ?_)
    simp [init, show a ∈ p.live from ha]
  refine ⟨hkept.balanced, hkept.agrees, by omega, ?_, fun hidle => ?_⟩
  · intro bs s' hmore hable'
    exact (hkept.run hmore hable').2.2
  · ext a
    have hbalanced := hkept.balanced a
    have hcall (t : T) : s.own a ≠ some (.call t) := fun h => by
      have hbuffer := (hkept.agrees t a).mp h
      simp [inCall, hidle t, HeapPc.buffer] at hbuffer
    cases hown : s.own a with
    | none => simp [lost, hown, hbalanced]
    | some h =>
        cases h with
        | call t => exact absurd hown (hcall t)
        | ve | program | lost => simp [lost, hown]

end Runs

open VeProcess in
/-- One thread loads a library that does not exist, and `load_library_err` answers -1. Meanwhile
    another one allocates. -/
def failedLoad : List (HeapAct Bool) :=
  [.load true [108] ⟨0, .ok⟩ (fun _ => 0) (completing (-1)), .next true (completing (-1)),
   .alloc false { completing 0 with alloc := ⟨0x8000, .ok⟩ }, .next true (completing (-1)),
   .next false (completing 0), .next true (completing 0)]

/-- All the helper functions have an address, and the errors can be reported. -/
def sampleTable : VeTable := { VeProcess.helperFunctions with loadLibrary := 0x1300, version := 4 }

theorem heap_ledger_leak :
    ∃ s, runList (step sampleVeorun sampleTable) fresh (init VeProcess.oneLive) failedLoad = some s ∧
      s.ve.live = {0x5000, 0x7000, 0x8000} ∧ s.own 0x8000 = some .program ∧
      s.lost = {0x7000} ∧ (∀ t, s.pc t = .idle) ∧
      s.lost.card = (init VeProcess.oneLive).leakCount sampleVeorun sampleTable failedLoad ∧
      s.ve.live = held s.ve.live s.own .ve ∪ held s.ve.live s.own .program ∪ s.lost := by
  have hend : (runList (step sampleVeorun sampleTable) fresh (init VeProcess.oneLive)
      failedLoad).map (fun s => decide (s.ve.able = true ∧ s.ve.live = {0x5000, 0x7000, 0x8000} ∧
        s.own 0x8000 = some .program ∧ s.lost = {0x7000} ∧ ∀ t, s.pc t = .idle)) = some true := by
    decide +kernel
  obtain ⟨s, hrun, hs⟩ := Option.map_eq_some_iff.mp hend
  obtain ⟨hable, hlive, hown, hlost, hidle⟩ := of_decide_eq_true hs
  obtain ⟨-, -, hcard, -, hrest⟩ := heap_ledger (by decide) hrun hable
  exact ⟨s, hrun, hlive, hown, hlost, hidle, hcard, hrest hidle⟩

end HeapSys

end Veo
