-- SUMMARY: Callers and the requests they push: which IDs they go on with, and what a refused submission leaves behind.
import Veo.ThreadContext.Shutdown
import Veo.ThreadContext.Ids

/-!
# Submissions

A submitter puts the ID of its request into `rem_reqid` before it tries to push the request.
As long as no caller finds the request queue closed when it loads the status, the ID that
it goes on with is the one of an accepted command, and a submitter that is refused has
touched nothing.
-/

namespace Veo

variable {T : Type}

/-- The callers of the submitters, which return the ID to a user or collect the result. -/
def After.submits : After → Bool
  | .submit | .collect .doOnContext | .collect .readMem => true
  | _ => false

/-- The callers in `close` and `exitProc`. -/
def After.shuts : After → Bool
  | .exit | .close => true
  | _ => false

/-- Callers of the kind `K` find the request queue open when they load its status. -/
def Accepting (K : After → Bool) (s : Sys T) (a : Act T) : Prop :=
  ∀ t c k, a = .caller t → s.pc t = .load c k → K k = true → s.comq.request.status = .ready

def acceptingCheck (K : After → Bool) (s : Sys T) : Act T → Bool
  | .caller t =>
    match s.pc t with
    | .load _ k => !K k || s.comq.request.status == .ready
    | _ => true
  | _ => true

theorem accepting_of_check {K : After → Bool} {s : Sys T} {a : Act T}
    (h : acceptingCheck K s a = true) : Accepting K s a := by
  rintro t c k rfl hpc hk
  simpa [acceptingCheck, hpc, hk] using h

/-! ## The ID that a caller goes on with -/

/-- The ID that a caller has just got for its request, and what it does with it. A user may
    wait for any ID. -/
def Pc.got : Pc T → Option (After × BitVec 64)
  | .done (.reqid id) => some (.submit, id)
  | .waitErase id w => if w = .user then none else some (.collect w, id)
  | .exitWait id => some (.exit, id)
  | .closeWait id => some (.close, id)
  | _ => none

theorem After.next_got {k k' : After} {id id' : BitVec 64}
    (h : (k.next id : Pc T).got = some (k', id')) : k' = k ∧ id' = id := by
  cases k with
  | collect w =>
      simp only [After.next, Pc.got] at h
      split at h
      · cases h
      · cases h
        exact ⟨rfl, rfl⟩
  | submit | exit | close =>
      cases h
      exact ⟨rfl, rfl⟩

theorem After.got_next {k : After} (hk : k.submits = true ∨ k.shuts = true) (id : BitVec 64) :
    (k.next id : Pc T).got = some (k, id) := by
  cases k with
  | collect w => cases w <;> first | rfl | simp [After.submits, After.shuts] at hk
  | submit | exit | close => rfl

@[simp] theorem Op.start_got (op : Op) : (op.start : Pc T).got = none := by
  cases op <;> rfl

/-- What `callWaitResult` gives is not an ID. -/
@[simp] theorem Waiter.returns_got (w : Waiter) (status : CommandStatus) (rv : Option (BitVec 64)) :
    (Pc.done (w.returns status rv) : Pc T).got = none := by
  cases w with
  | user => rfl
  | doOnContext | readMem =>
      simp only [Waiter.returns]
      split <;> rfl

@[simp] theorem Sys.resultOf_got (w : Waiter) (c : Command T) :
    (Pc.done (Sys.resultOf w c) : Pc T).got = none := by
  unfold Sys.resultOf
  split <;> exact Waiter.returns_got _ _ _

/-- A caller that gets an ID without pushing a request was refused or rejected. -/
theorem Moves.got {s : Sys T} {pc pc' : Pc T} {k : After} {id : BitVec 64} (h : Moves s pc pc')
    (hgot : pc'.got = some (k, id)) :
    (id = requestIdInvalid ∧ ∃ f, pc = .test f k) ∨
      (s.comq.request.status ≠ .ready ∧ ∃ c, pc = .load c k) := by
  cases h with
  | refused f k' h =>
      obtain ⟨rfl, rfl⟩ := After.next_got hgot
      exact .inl ⟨rfl, f, rfl⟩
  | rejected c k' h =>
      obtain ⟨rfl, -⟩ := After.next_got hgot
      exact .inr ⟨h, c, rfl⟩
  | waitUnknown id' w h =>
      rw [Waiter.returns_got] at hgot
      cases hgot
  | _ => cases hgot

/-! ## Issued IDs are valid -/

/-- The invalid ID is never given to a request, and only submitters test the state. -/
structure Sys.Submitting (s : Sys T) : Prop where
  accepted : ∀ a ∈ s.accepted, a.msgid ≠ requestIdInvalid
  pending : ∀ t id, (s.pc t).pending = some id → id ≠ requestIdInvalid
  rem : requestIdInvalid ∉ s.remReqid
  tests : ∀ t f k, s.pc t = .test f k → k.submits = true

theorem Op.start_test {op : Op} {f : Handler} {k : After} (h : (op.start : Pc T) = .test f k) :
    k.submits = true := by
  cases op <;> cases h <;> rfl

theorem After.next_ne_test {k k' : After} {id : BitVec 64} {f : Handler} :
    (k.next id : Pc T) ≠ .test f k' := by
  cases k <;> simp [After.next]

theorem Moves.ne_test {s : Sys T} {pc pc' : Pc T} {f : Handler} {k : After} (h : Moves s pc pc') :
    pc' ≠ .test f k := by
  cases h <;> first | exact After.next_ne_test | simp

theorem Sys.init_submitting (v : VeThread) : (Sys.init v : Sys T).Submitting := by
  constructor <;> simp [Sys.init, Pc.pending]

section Steps
variable [DecidableEq T] {P : Platform} {s s' : Sys T} {a : Act T}

/-- The steps of callers. -/
theorem Step.submitting_caller {t : T} (h : Step P s (.caller t) s') (hs : s.Submitting) :
    s'.Submitting := by
  obtain ⟨hacc, hpend, hrem, htests⟩ := hs
  constructor
  case accepted =>
    intro b hb
    rcases h.accepted_cases hb with hold | ⟨u, c, k, -, hpc, rfl⟩
    · exact hacc b hold
    · exact hpend u c.msgid (by rw [hpc]; rfl)
  case pending =>
    intro u id hu
    have hold := hpend u id
    cases h with
    | move t pc pc' hpc hm =>
        have hsame := hm.pending
        grind [Function.update_apply]
    | _ => grind [Function.update_apply, Pc.pending]
  case rem =>
    cases h with
    | insert t id kind k hpc hfree =>
        have hid := hpend t id (by rw [hpc]; rfl)
        grind
    | peekTake | waitErase => exact fun hmem => hrem (Finset.mem_of_mem_erase hmem)
    | _ => exact hrem
  case tests =>
    intro u f k hu
    have hold := htests u f k
    cases h with
    | move t pc pc' hpc hm => grind [Function.update_apply, hm.ne_test (f := f) (k := k)]
    | push t c k' hpc => grind [Function.update_apply, After.next_ne_test]
    | _ => grind [Function.update_apply]

theorem Step.submitting (h : Step P s a s') (hs : s.Submitting) : s'.Submitting := by
  cases a with
  | caller t => exact h.submitting_caller hs
  | start t op =>
      cases h with
      | start t op hpc =>
          refine ⟨hs.accepted, fun u id hu => ?_, hs.rem, fun u f k hu => ?_⟩
          · have hold := hs.pending u id
            grind [Function.update_apply]
          · have hold := hs.tests u f k
            grind [Function.update_apply, Op.start_test]
  | pseudo env =>
      have hframe := h.callerFrame
      constructor
      case accepted => exact hframe.accepted ▸ hs.accepted
      case pending => exact hframe.pc ▸ hs.pending
      case rem => exact hframe.remReqid ▸ hs.rem
      case tests => exact hframe.pc ▸ hs.tests

theorem Reachable.submitting (h : Reachable P s) : s.Submitting :=
  h.invariant Sys.init_submitting fun _ _ _ _ hs hst => hst.submitting hs

/-! ## The ID is the one of the accepted command -/

/-- The caller `t` goes on with the ID of the command that its call got accepted. -/
def Sys.Accepted (s : Sys T) (t : T) (id : BitVec 64) : Prop :=
  ∃ a ∈ s.accepted, a.owner = (t, s.calls t) ∧ a.msgid = id

/-- Callers of the kind `K` go on with the ID of their command; only submitters that got none
    accepted go on with the invalid ID. -/
def Sys.GotOk (K : After → Bool) (s : Sys T) : Prop :=
  ∀ t k id, K k = true → (s.pc t).got = some (k, id) →
    (∀ a ∈ s.accepted, a.owner = (t, s.calls t) → a.msgid = id) ∧
      (s.Accepted t id ∨ (id = requestIdInvalid ∧ k.submits = true))

/-- A step of the caller `t` to the position `pc`, which accepts no command of another call. -/
theorem Sys.GotOk.update {K : After → Bool} {t : T} {pc : Pc T} (hs : s.GotOk K)
    (hpc : s'.pc = Function.update s.pc t pc) (hcalls : ∀ u, u ≠ t → s'.calls u = s.calls u)
    (hacc : s.accepted ⊆ s'.accepted)
    (hold : ∀ b ∈ s'.accepted, b.caller ≠ t → b ∈ s.accepted)
    (hown : ∀ k id, K k = true → pc.got = some (k, id) →
      (∀ a ∈ s'.accepted, a.owner = (t, s'.calls t) → a.msgid = id) ∧
        (s'.Accepted t id ∨ (id = requestIdInvalid ∧ k.submits = true))) : s'.GotOk K := by
  intro u k id hk hu
  rw [hpc, Function.update_apply] at hu
  split at hu
  · rename_i heq
    subst heq
    exact hown k id hk hu
  · rename_i hne
    obtain ⟨hsame, hor⟩ := hs u k id hk hu
    rw [← hcalls u hne] at hsame
    refine ⟨fun b hb howner => hsame b (hold b hb ?_) howner, hor.imp_left ?_⟩
    · rw [(Prod.mk.inj howner).1]
      exact hne
    · rintro ⟨b, hb, howner, hid⟩
      exact ⟨b, hacc hb, by rw [howner, hcalls u hne], hid⟩

/-- A step of a caller that accepts nothing and gives it no ID. -/
theorem Sys.GotOk.quiet {K : After → Bool} {t : T} {pc : Pc T} (hs : s.GotOk K)
    (hpc : s'.pc = Function.update s.pc t pc) (hcalls : ∀ u, u ≠ t → s'.calls u = s.calls u)
    (hacc : s'.accepted = s.accepted) (hnone : pc.got = none) : s'.GotOk K := by
  refine hs.update hpc hcalls (hacc ▸ List.Subset.refl _) (fun b hb _ => hacc ▸ hb) ?_
  intro k id _ hgot
  cases hnone.symm.trans hgot

theorem Step.gotOk {K : After → Bool} (h : Step P s a s') (ho : s.Owned) (hsub : s.Submitting)
    (hs : s.GotOk K) (hg : Accepting K s a) : s'.GotOk K := by
  cases h with
  | start t op hpc =>
      exact hs.quiet rfl (fun u hu => Function.update_of_ne hu _ _) rfl (Op.start_got op)
  | move t pc pc' hpc hm =>
      refine hs.update rfl (fun _ _ => rfl) (List.Subset.refl _) (fun b hb _ => hb) ?_
      intro k id hk hgot
      rcases hm.got hgot with ⟨rfl, f, rfl⟩ | ⟨hclosed, c, rfl⟩
      · refine ⟨fun b hb howner => ?_, .inr ⟨rfl, hsub.tests t f k hpc⟩⟩
        -- the call has pushed nothing yet
        obtain ⟨rfl, hcall⟩ := Prod.mk.inj howner
        have hpushed := (ho.past b hb).2 hcall
        rw [hpc] at hpushed
        cases hpushed
      · exact absurd (hg t c k rfl hpc hk) hclosed
  | push t c k hpc =>
      obtain ⟨hcaller, hcall, -⟩ := ho.built t c (by rw [hpc]; rfl)
      have howner : c.toTicket.owner = (t, s.calls t) := Prod.ext hcaller hcall
      refine hs.update rfl (fun _ _ => rfl) (List.subset_append_left _ _) ?_ ?_
      · intro b hb hne
        rcases List.mem_append.mp hb with hb | hb
        · exact hb
        · cases List.mem_singleton.mp hb
          exact absurd hcaller hne
      · intro k' id _ hgot
        obtain ⟨rfl, rfl⟩ := After.next_got hgot
        refine ⟨fun b hb hb' => ?_, .inl ⟨c.toTicket, by simp, howner, rfl⟩⟩
        rcases List.mem_append.mp hb with hb | hb
        · exact absurd (hb'.trans howner.symm) (ho.fresh hpc b hb)
        · cases List.mem_singleton.mp hb
          rfl
  | issue t kind k hpc hinv
  | insert t id kind k hpc hfree
  | peekLock t id hpc hfree hmem
  | peekNone t id hpc hfind
  | peekLost t id c q hpc hfind hmem
  | waitErase t id w hpc hfree hmem
  | exitTake t id c q hpc hfind
  | exitDone t hpc
  | delete t hpc
  | finish t r hpc => exact hs.quiet rfl (fun _ _ => rfl) rfl rfl
  | peekTake t id c q hpc hfind hmem
  | waitTake t id w c q hpc hfind =>
      exact hs.quiet rfl (fun _ _ => rfl) rfl (Sys.resultOf_got _ _)
  | closeTake t id c q hpc hfind =>
      refine hs.quiet rfl (fun _ _ => rfl) rfl ?_
      split <;> rfl
  | _ => exact hs

/-- In every run in which callers of the kind `K` find the request queue open. -/
theorem gotOk_of_run {K : After → Bool} {v : VeThread}
    (h : Transition.Run (Sys.step P) (Accepting K) (Sys.init v) s) : s.GotOk K := by
  refine Transition.Run.invariant_of (B := fun s => s.Wf ∧ s.Submitting) ?_ ?_ h ?_ ?_
  · intro s a s' hb hst
    have hcases := Sys.step_cases hst
    exact ⟨hcases.wf hb.1, hcases.submitting hb.2⟩
  · intro s a s' hb hs hg hst
    exact (Sys.step_cases hst).gotOk hb.1.owned hb.2 hs hg
  · exact ⟨Sys.init_wf v, Sys.init_submitting v⟩
  · intro t k id _ hgot
    cases hgot

/-! ## A refused submission touches nothing -/

/-- The step is not one of the caller `t`, or it leaves the queues and `rem_reqid` alone. -/
def LeavesAlone (P : Platform) (t : T) (s : Sys T) (a : Act T) : Prop :=
  a = .caller t → ∀ s', s.step P a = some s' → s'.comq = s.comq ∧ s'.remReqid = s.remReqid

/-- A submitter gets to the place where it has been refused straight from its test. -/
theorem Step.refused {t : T} {k : After} (h : Step P s (.caller t) s') (hsub : s.Submitting)
    (hk : k.submits = true) (hg : Accepting After.submits s (.caller t))
    (hpc' : s'.pc t = k.next requestIdInvalid ∨ ∃ f, s'.pc t = .test f k) :
    (∃ f, s.pc t = .test f k) ∧ s'.comq = s.comq ∧ s'.remReqid = s.remReqid := by
  have hgot : (s'.pc t).got = some (k, requestIdInvalid) ∨ ∃ f, s'.pc t = .test f k := by
    refine hpc'.imp_left fun heq => ?_
    rw [heq]
    exact After.got_next (.inl hk) _
  clear hpc'
  cases h with
  | move t pc pc' hpc hm =>
      simp only [Function.update_self] at hgot
      rcases hgot with hgot | ⟨f, htest⟩
      · rcases hm.got hgot with ⟨-, f, rfl⟩ | ⟨hclosed, c, rfl⟩
        · exact ⟨⟨f, hpc⟩, rfl, rfl⟩
        · exact absurd (hg t c k rfl hpc hk) hclosed
      · exact absurd htest hm.ne_test
  | push t c k' hpc =>
      simp only [Function.update_self] at hgot
      rcases hgot with hgot | ⟨f, htest⟩
      · exact absurd (After.next_got hgot).2.symm (hsub.pending t c.msgid (by rw [hpc]; rfl))
      · exact absurd htest After.next_ne_test
  | issueSkip t kind k' hpc hinv => simp [hpc, Pc.got] at hgot
  | peekTake t id c q hpc hfind hmem => simp at hgot
  | waitTake t id w c q hpc hfind => simp at hgot
  | closeTake t id c q hpc hfind =>
      simp only [Function.update_self] at hgot
      split at hgot <;> simp [Pc.got] at hgot
  | _ => simp [Pc.got] at hgot

/-- The call of `t` that was running in `s₀` is over, or its steps since then left the queues
    and `rem_reqid` alone if it has not passed the test or has been refused. -/
def RefusedSince (P : Platform) (t : T) (k : After) (s₀ s : Sys T) : Prop :=
  s₀.calls t ≤ s.calls t ∧ (s.calls t = s₀.calls t →
    (s.pc t = k.next requestIdInvalid ∨ ∃ f, s.pc t = .test f k) →
    Transition.Run (Sys.step P) (LeavesAlone P t) s₀ s)

theorem RefusedSince.step {s₀ : Sys T} {t : T} {k : After} (hs : RefusedSince P t k s₀ s)
    (hsub : s.Submitting) (hk : k.submits = true) (hg : Accepting After.submits s a)
    (hst : s.step P a = some s') : RefusedSince P t k s₀ s' := by
  obtain ⟨hle, hrun⟩ := hs
  have hcases := Sys.step_cases hst
  refine ⟨Nat.le_trans hle (hcases.calls_le t), fun hn hat => ?_⟩
  rcases hcases.call_cases t with ⟨rfl, hsame⟩ | ⟨op, -, hnext⟩ | ⟨hcaller, -, hpc, hsame⟩
  · obtain ⟨htest, hcomq, hrem⟩ := hcases.refused hsub hk hg hat
    refine .tail (hrun (hsame.symm.trans hn) (.inr htest)) (fun _ s'' hst' => ?_) hst
    cases hst.symm.trans hst'
    exact ⟨hcomq, hrem⟩
  · omega
  · rw [hpc] at hat
    exact .tail (hrun (hsame.symm.trans hn) hat) (fun heq => absurd heq hcaller) hst

/-- The steps of a submitter that has been refused left the queues and `rem_reqid` alone. -/
theorem refusedSince_of_run {s₀ : Sys T} {t : T} {k : After} (hr : Reachable P s₀)
    (h : Transition.Run (Sys.step P) (Accepting After.submits) s₀ s) (hk : k.submits = true) :
    RefusedSince P t k s₀ s := by
  refine Transition.Run.invariant_of (B := Sys.Submitting) (I := RefusedSince P t k s₀) ?_ ?_ h
    hr.submitting ⟨Nat.le_refl _, fun _ _ => .refl s₀⟩
  · intro s a s' hsub hst
    exact (Sys.step_cases hst).submitting hsub
  · intro s a s' hsub hs hg hst
    exact hs.step hsub hk hg hst

/-! ## Submitters -/

/-- Submission is all or nothing. `s₀` is a state of the run before `s`. -/
structure AllOrNothing (P : Platform) (s₀ s : Sys T) : Prop where
  /-- A submitter returns a valid ID if and only if a command with that ID was accepted from its
      call; a call that got a command accepted returns its ID. -/
  returned : ∀ t (k : After) id, k.submits = true → s.pc t = k.next id →
    (id ≠ requestIdInvalid ↔ s.Accepted t id) ∧
      ∀ a ∈ s.accepted, a.owner = (t, s.calls t) → a.msgid = id
  /-- When a submitter returns the invalid ID, its own steps have changed neither the queues nor
      `rem_reqid`. -/
  refused : ∀ t (k : After), k.submits = true → s.calls t = s₀.calls t →
    s.pc t = k.next requestIdInvalid → Transition.Run (Sys.step P) (LeavesAlone P t) s₀ s
  /-- An ID in `rem_reqid` that a submitter has returned belongs to an accepted command. -/
  given : ∀ t (k : After) id, k.submits = true → s₀.pc t = k.next id → id ∈ s.remReqid →
    ∃ a ∈ s.accepted, a.msgid = id

/-- In every run in which submitters find the request queue open when they load its status,
    submission is all or nothing. -/
theorem submission_all_or_nothing (v : VeThread) {s₀ : Sys T}
    (h₀ : Transition.Run (Sys.step P) (Accepting After.submits) (Sys.init v) s₀)
    (h : Transition.Run (Sys.step P) (Accepting After.submits) s₀ s) : AllOrNothing P s₀ s := by
  have hr₀ : Reachable P s₀ := ⟨v, h₀.reaches⟩
  have hr : Reachable P s := ⟨v, (h₀.trans h).reaches⟩
  constructor
  case returned =>
    intro t k id hk hpc
    obtain ⟨hsame, hor⟩ := gotOk_of_run (h₀.trans h) t k id hk
      (by rw [hpc]; exact After.got_next (.inl hk) id)
    refine ⟨⟨fun hvalid => hor.resolve_right fun hinv => hvalid hinv.1, ?_⟩, hsame⟩
    rintro ⟨b, hb, -, rfl⟩
    exact hr.submitting.accepted b hb
  case refused =>
    intro t k hk hcalls hpc
    exact (refusedSince_of_run hr₀ h hk).2 hcalls (.inl hpc)
  case given =>
    intro t k id hk hpc hmem
    obtain ⟨-, hor⟩ := gotOk_of_run h₀ t k id hk (by rw [hpc]; exact After.got_next (.inl hk) id)
    rcases hor with ⟨b, hb, -, hid⟩ | ⟨rfl, -⟩
    · refine ⟨b, ?_, hid⟩
      refine h.invariant (I := fun s => b ∈ s.accepted) (fun s a s' hb _ hst => ?_) hb
      exact (Sys.step_cases hst).accepted_subset hb
    · exact absurd hmem hr.submitting.rem

/-- One caller gets a read transfer accepted while another one is refused, because it asks for
    the call of the address zero. -/
theorem submission_all_or_nothing_null :
    ∃ s₀ s : Sys Bool, s₀.pc false = .test (.callAsync 0) .submit ∧
      s.pc true = .done (.reqid 0) ∧ s.pc false = .done (.reqid requestIdInvalid) ∧
      s.remReqid = {0} ∧ AllOrNothing linuxPlatform s₀ s := by
  obtain ⟨s₀, h₀, hs₀⟩ := Transition.exists_run (Sys.step linuxPlatform)
    (acceptingCheck After.submits) (Sys.init newThread)
    [.pseudo failingEnv, .start true (.asyncReadMem 0x100 0x1000 8), .caller true,
      .start false (.callAsync 0)]
    (fun s₀ => s₀.pc false == .test (.callAsync 0) .submit &&
      (Transition.runList (Sys.step linuxPlatform) (acceptingCheck After.submits) s₀
        [.caller true, .caller false, .caller true, .caller true, .caller true]).any fun s =>
          s.pc true == .done (.reqid 0) && s.pc false == .done (.reqid requestIdInvalid) &&
            s.remReqid == {0})
    (fun _ _ h => accepting_of_check h) (by decide)
  simp only [Bool.and_eq_true, beq_iff_eq, Option.any_eq_true] at hs₀
  obtain ⟨htest, s, hrun, ⟨htrue, hfalse⟩, hrem⟩ := hs₀
  exact ⟨s₀, s, htest, htrue, hfalse, hrem, submission_all_or_nothing newThread h₀
    (Transition.run_of_runList (fun _ _ h => accepting_of_check h) hrun)⟩

/-- A read transfer fails while two callers stand between their test of the state and the load of
    the status. `callVHAsync` then returns the ID 1 though its request was rejected, and
    `asyncReadMem` returns the invalid ID and leaves the ID 2 in `rem_reqid`. -/
theorem submission_half_done :
    ∃ s : Sys Bool, Reachable linuxPlatform s ∧ s.pc false = .done (.reqid 1) ∧
      s.pc true = .done (.reqid requestIdInvalid) ∧ s.remReqid = {0, 1, 2} ∧
      s.accepted.map Ticket.msgid = [0] ∧ ¬ AllOrNothing linuxPlatform s s := by
  obtain ⟨s, hreach, hs⟩ := Transition.exists_reaches (Sys.step linuxPlatform)
    (Sys.init newThread)
    [.pseudo failingEnv, .pseudo failingEnv, .start true (.asyncReadMem 0x100 0x1000 8),
      .caller true, .caller true, .caller true, .caller true, .caller true, .caller true,
      .pseudo failingEnv, .pseudo failingEnv, .start false (.callVHAsync 1), .caller false,
      .start true (.asyncReadMem 0x100 0x1000 8), .caller true, .pseudo failingEnv,
      .pseudo failingEnv, .caller false, .caller false, .caller false, .caller true, .caller true,
      .caller true]
    (fun s => s.pc false == .done (.reqid 1) && s.pc true == .done (.reqid requestIdInvalid) &&
      s.remReqid == {0, 1, 2} && s.accepted.map Ticket.msgid == [0]) (by decide)
  simp only [Bool.and_eq_true, beq_iff_eq] at hs
  obtain ⟨⟨⟨hfalse, htrue⟩, hrem⟩, hacc⟩ := hs
  refine ⟨s, ⟨_, hreach⟩, hfalse, htrue, hrem, hacc, fun hall => ?_⟩
  obtain ⟨b, hb, -, hid⟩ := ((hall.returned false .submit 1 rfl hfalse).1).mp (by decide)
  have hmem := List.mem_map_of_mem (f := Ticket.msgid) hb
  rw [hacc, hid] at hmem
  cases List.mem_singleton.mp hmem

/-! ## `close` and `exitProc` -/

/-- In every run in which `close` and `exitProc` find the request queue open when they load its
    status, they wait for the ID of a command that was accepted from their call. -/
theorem shutdown_waits_accepted (v : VeThread)
    (h : Transition.Run (Sys.step P) (Accepting After.shuts) (Sys.init v) s) {t : T}
    {id : BitVec 64} (hpc : s.pc t = .closeWait id ∨ s.pc t = .exitWait id) : s.Accepted t id := by
  have hwaits : ∃ k : After, k.shuts = true ∧ s.pc t = k.next id := by
    rcases hpc with hpc | hpc
    · exact ⟨.close, rfl, hpc⟩
    · exact ⟨.exit, rfl, hpc⟩
  obtain ⟨k, hk, hnext⟩ := hwaits
  obtain ⟨-, hacc | ⟨-, hsubmits⟩⟩ := gotOk_of_run h t k id hk
    (by rw [hnext]; exact After.got_next (.inr hk) id)
  · exact hacc
  · cases k with
    | exit | close => cases hsubmits
    | submit | collect => cases hk

/-- A close request and an exit request wait for their commands. -/
theorem shutdown_waits_accepted_both :
    ∃ s : Sys Bool, s.pc true = .closeWait 0 ∧ s.pc false = .exitWait 1 ∧
      s.Accepted true 0 ∧ s.Accepted false 1 := by
  obtain ⟨s, hrun, hs⟩ := Transition.exists_run (Sys.step linuxPlatform)
    (acceptingCheck After.shuts) (Sys.init newThread)
    [.pseudo failingEnv, .start true .close, .caller true, .caller true, .caller true,
      .start false (.exitProc 0x4000), .caller false, .caller false, .caller false, .caller false,
      .caller true, .caller true, .caller false]
    (fun s => s.pc true == .closeWait 0 && s.pc false == .exitWait 1)
    (fun _ _ h => accepting_of_check h) (by decide)
  simp only [Bool.and_eq_true, beq_iff_eq] at hs
  exact ⟨s, hs.1, hs.2, shutdown_waits_accepted newThread hrun (.inl hs.1),
    shutdown_waits_accepted newThread hrun (.inr hs.2)⟩

/-- A read transfer fails, and the event loop closes the request queue. `exitProc`, which tests
    the state of the main thread, and a `close` that tested the state before it was set, are
    rejected and wait for the invalid ID, which no command was accepted with. -/
theorem shutdown_waits_invalid :
    ∃ s : Sys Bool, Reachable linuxPlatform s ∧ s.pc true = .exitWait requestIdInvalid ∧
      s.pc false = .closeWait requestIdInvalid ∧ s.accepted.map Ticket.msgid = [0] ∧
      ¬ s.Accepted true requestIdInvalid ∧ ¬ s.Accepted false requestIdInvalid ∧
      s.step linuxPlatform (.caller true) = none ∧ s.step linuxPlatform (.caller false) = none := by
  obtain ⟨s, hreach, hs⟩ := Transition.exists_reaches (Sys.step linuxPlatform)
    (Sys.init newThread)
    [.pseudo failingEnv, .pseudo failingEnv, .start true (.asyncReadMem 0x100 0x1000 8),
      .caller true, .caller true, .caller true, .caller true, .caller true, .caller true,
      .pseudo failingEnv, .pseudo failingEnv, .start false .close, .caller false,
      .pseudo failingEnv, .pseudo failingEnv, .pseudo failingEnv, .pseudo failingEnv,
      .caller false, .caller false, .caller false, .start true (.exitProc 0x4000), .caller true,
      .caller true, .caller true, .caller true]
    (fun s => s.pc true == .exitWait requestIdInvalid &&
      s.pc false == .closeWait requestIdInvalid && s.accepted.map Ticket.msgid == [0] &&
      (s.step linuxPlatform (.caller true)).isNone && (s.step linuxPlatform (.caller false)).isNone)
    (by decide)
  simp only [Bool.and_eq_true, beq_iff_eq, Option.isNone_iff_eq_none] at hs
  obtain ⟨⟨⟨⟨htrue, hfalse⟩, hacc⟩, hstuck⟩, hstuck'⟩ := hs
  have hreachable : Reachable linuxPlatform s := ⟨_, hreach⟩
  have hnot (t : Bool) : ¬ s.Accepted t requestIdInvalid := by
    rintro ⟨b, hb, -, hid⟩
    exact hreachable.submitting.accepted b hb hid
  exact ⟨s, hreachable, htrue, hfalse, hacc, hnot true, hnot false, hstuck, hstuck'⟩

end Steps

end Veo
