-- SUMMARY: A context that serves its queue keeps no caller: when nothing but new calls is possible, every caller has returned.
import Veo.ThreadContext.Claim
import Veo.ThreadContext.Close
import Veo.ThreadContext.Progress
import Veo.ThreadContext.Submission
import Mathlib.Algebra.BigOperators.Group.Finset.Piecewise
import Mathlib.Data.Fintype.BigOperators

/-!
# Callers at rest

Callers block in three places: on `req_mtx`, on the completion of an ID they have taken out of
`rem_reqid`, and on the completion of their own command in `exitProc` and `close`. While the
event loop goes on, each of these comes to an end, unless a completion has been taken by
somebody whose command it is not.
-/

namespace Veo

open Transition

variable {T : Type} {P : Platform} {s s' : Sys T} {a : Act T} {t : T} {id : BitVec 64}

/-! ## The queue is open while the event loop goes on -/

/-- The queue is closed only by the failure sequence, which ends the event loop. -/
def Sys.OpenOk (s : Sys T) : Prop :=
  s.comq.request.status = .closed → s.pseudo.closing = true ∨ s.pseudo = .returned

variable [DecidableEq T]

theorem Step.openOk (h : Step P s a s') (hs : s.OpenOk) : s'.OpenOk := by
  by_cases ha : ∃ env, a = .pseudo env
  case neg =>
    have hframe := h.pseudoFrame fun env heq => ha ⟨env, heq⟩
    unfold Sys.OpenOk
    rw [hframe.status, hframe.pseudo]
    exact hs
  case pos =>
    obtain ⟨env, rfl⟩ := ha
    unfold Sys.OpenOk at hs ⊢
    cases h with
    | complete env c next hpc hcmd =>
        intro hclosed
        rcases hpc.phases with ⟨hp, -⟩ | ⟨-, rfl⟩ | ⟨-, rfl⟩ | ⟨hp, -⟩
        · simpa [hp, Pseudo.closing] using hs hclosed
        · exact .inl rfl
        · exact .inl rfl
        · simpa [hp, Pseudo.closing] using hs hclosed
    | failClose env hpc => exact fun _ => .inl rfl
    | drainPop env c q hpc hpop => exact fun _ => .inl rfl
    | drainEmpty env hpc hempty => exact fun _ => .inr rfl
    | pop env c q hpc hpop =>
        obtain ⟨-, hstatus, -⟩ := CommQueue.popRequest_eq_some hpop
        intro hclosed
        simpa [hpc, Pseudo.closing] using hs (hstatus ▸ hclosed)
    | abort env hpc =>
        intro hclosed
        rcases hpc with hpc | hpc <;> simpa [hpc, Pseudo.closing] using hs hclosed
    | startBlock | startFail | startExit | testBlocked | testReturned | runClose | run
    | failState =>
        intro hclosed
        simp_all [Pseudo.closing]

theorem Reachable.openOk (h : Reachable P s) : s.OpenOk :=
  h.invariant (fun _ hclosed => by cases hclosed) fun _ _ _ _ hs hst => hst.openOk hs

/-- The queue is never opened again. -/
theorem Step.ready (h : Step P s a s') (hready : s'.comq.request.status = .ready) :
    s.comq.request.status = .ready := by
  cases h with
  | peekTake t id c q hpc hfind hmem
  | peekLost t id c q hpc hfind hmem
  | waitTake t id w c q hpc hfind
  | exitTake t id c q hpc hfind
  | closeTake t id c q hpc hfind =>
      obtain ⟨-, hq, -⟩ := CommQueue.findCompletion_eq_some hfind
      exact hq ▸ hready
  | pop env c q hpc hpop | drainPop env c q hpc hpop =>
      obtain ⟨-, hstatus, -⟩ := CommQueue.popRequest_eq_some hpop
      exact hstatus ▸ hready
  | failClose env hpc => cases hready
  | _ => exact hready

/-- In a run that ends with an open queue nobody has found it closed. -/
theorem accepting_of_ready {v : VeThread} {K : After → Bool}
    (h : Reaches (Sys.step P) (Sys.init v) s) (hready : s.comq.request.status = .ready) :
    Run (Sys.step P) (Accepting K) (Sys.init v) s := by
  induction h with
  | refl => exact .refl _
  | tail hrun _ hstep ih =>
      have hbefore := (Sys.step_cases hstep).ready hready
      exact .tail (ih hbefore) (fun _ _ _ _ _ _ => hbefore) hstep

/-! ## Every ID in use belongs to a command -/

/-- `req_mtx` is held by a caller in the search of `callPeekResult`. -/
def Sys.HolderSearches (s : Sys T) : Prop :=
  ∀ t, s.reqMtx = some t → ∃ id, s.pc t = .peekSearch id

theorem Step.holderSearches (h : Step P s a s') (hs : s.HolderSearches) : s'.HolderSearches := by
  intro u hu
  cases h with
  | peekLock t id hpc hfree hmem =>
      cases hu
      exact ⟨id, Function.update_self _ _ _⟩
  | peekNone | peekTake | peekLost => cases hu
  | insert t id kind k hpc hfree | waitErase t id w hpc hfree hmem => cases hfree.symm.trans hu
  | move t pc pc' hpc hm =>
      obtain ⟨id, hid⟩ := hs u hu
      have hne : u ≠ t := by
        rintro rfl
        rw [hpc.symm.trans hid] at hm
        cases hm
      exact ⟨id, (Function.update_of_ne hne _ _).trans hid⟩
  | start t op hpc | issue t kind k hpc hinv | push t c k hpc
  | waitTake t id w c q hpc hfind | exitTake t id c q hpc hfind | exitDone t hpc
  | closeTake t id c q hpc hfind | delete t hpc | finish t r hpc =>
      obtain ⟨id, hid⟩ := hs u hu
      -- the step is not one of the holder, who is in its search
      have hne : u ≠ t := by
        rintro rfl
        rw [hpc] at hid
        cases hid
      exact ⟨id, (Function.update_of_ne hne _ _).trans hid⟩
  | _ => exact hs u hu

theorem Reachable.holderSearches (h : Reachable P s) : s.HolderSearches :=
  h.invariant (fun _ _ hu => by cases hu) fun _ _ _ _ hs hst => hst.holderSearches hs

/-- An ID that can be asked for is the one of a command that is being built or was accepted. -/
def Sys.Backed (s : Sys T) : Prop :=
  ∀ id, (id ∈ s.remReqid ∨ ∃ t w, s.pc t = .waitFor id w) →
    (∃ t c, (s.pc t).building = some c ∧ c.msgid = id) ∨ ∃ b ∈ s.accepted, b.msgid = id

omit [DecidableEq T] in
theorem Moves.building_of_ready {pc pc' : Pc T} (h : Moves s pc pc')
    (hready : s.comq.request.status = .ready) : pc.building = none ∨ pc'.building = pc.building := by
  cases h with
  | ready c k h => exact .inr rfl
  | rejected c k h => exact absurd hready h
  | _ => exact .inl rfl

/-- While the queue is open, a command that is being built is pushed in the end. -/
theorem Step.building (h : Step P s a s') (hready : s.comq.request.status = .ready) {c : Command T}
    (hc : (s.pc t).building = some c) :
    (s'.pc t).building = some c ∨ c.toTicket ∈ s'.accepted := by
  cases h with
  | push u d k hpc =>
      by_cases htu : t = u
      · subst htu
        rw [hpc] at hc
        cases hc
        exact .inr (by simp)
      · exact .inl (by simpa [Function.update_of_ne htu] using hc)
  | move u pc pc' hpc hm =>
      by_cases htu : t = u
      · subst htu
        rcases hm.building_of_ready hready with hnone | hsame
        · rw [hpc, hnone] at hc
          cases hc
        · exact .inl (by simpa [hsame, ← hpc] using hc)
      · exact .inl (by simpa [Function.update_of_ne htu] using hc)
  | start u op hpc | issue u kind k hpc hinv | insert u id kind k hpc hfree
  | peekLock u id hpc hfree hmem | peekNone u id hpc hfind | peekTake u id d q hpc hfind hmem
  | peekLost u id d q hpc hfind hmem | waitErase u id w hpc hfree hmem
  | waitTake u id w d q hpc hfind | exitTake u id d q hpc hfind | exitDone u hpc
  | closeTake u id d q hpc hfind | delete u hpc | finish u r hpc =>
      have htu : t ≠ u := by
        rintro rfl
        rw [hpc] at hc
        cases hc
      exact .inl (by simpa [Function.update_of_ne htu] using hc)
  | _ => exact .inl hc

theorem Step.backed (h : Step P s a s') (hready : s.comq.request.status = .ready)
    (hs : s.Backed) : s'.Backed := by
  have hkeep (id : BitVec 64) (hid : id ∈ s.remReqid ∨ ∃ t w, s.pc t = .waitFor id w) :
      (∃ t c, (s'.pc t).building = some c ∧ c.msgid = id) ∨ ∃ b ∈ s'.accepted, b.msgid = id := by
    rcases hs id hid with ⟨t, c, hc, hmsg⟩ | ⟨b, hb, hmsg⟩
    · rcases h.building hready hc with hold | hpushed
      · exact .inl ⟨t, c, hold, hmsg⟩
      · exact .inr ⟨_, hpushed, hmsg⟩
    · exact .inr ⟨b, h.accepted_subset hb, hmsg⟩
  rintro id (hmem | ⟨t, w, hw⟩)
  · cases h with
    | insert u i kind k hpc hfree =>
        rcases Finset.mem_insert.mp hmem with rfl | hold
        · refine .inl ⟨u, ⟨⟨u, s.calls u, id, kind⟩, none⟩, ?_, rfl⟩
          simp [Pc.building]
        · exact hkeep id (.inl hold)
    | peekTake | waitErase => exact hkeep id (.inl (Finset.mem_of_mem_erase hmem))
    | _ => exact hkeep id (.inl hmem)
  · rcases h.waitFor_cases hw with hold | ⟨-, hmem, -⟩
    · exact hkeep id (.inr ⟨t, w, hold⟩)
    · exact hkeep id (.inl hmem)

theorem Reachable.backed (h : Reachable P s) (hready : s.comq.request.status = .ready) :
    s.Backed := by
  obtain ⟨v, hrun⟩ := h
  induction hrun with
  | refl =>
      rintro id (hmem | ⟨t, w, hw⟩)
      · cases hmem
      · cases hw
  | tail hrun _ hstep ih =>
      have hcases := Sys.step_cases hstep
      have hbefore := hcases.ready hready
      exact hcases.backed hbefore (ih hbefore)

/-! ## A completion that was handed out is not waited for -/

/-- The ID has been issued and is gone, and nobody waits for it. -/
structure Sys.Spent (id : BitVec 64) (s : Sys T) : Prop where
  issued : id.toNat < s.issued
  gone : id ∉ s.remReqid
  inserted : ∀ u kind k, s.pc u ≠ .insert id kind k
  waited : ∀ u w, s.pc u ≠ .waitFor id w

theorem Step.spent (h : Step P s a s') (hids : s.IdsOk) (hs : s.Spent id) : s'.Spent id := by
  refine ⟨Nat.lt_of_lt_of_le hs.issued h.issued_le, fun hmem => ?_, fun u kind k hu => ?_,
    fun u w hu => ?_⟩
  · rcases h.remReqid_cases hmem with hold | ⟨u, kind, k, c, hpc, -⟩
    · exact hs.gone hold
    · exact hs.inserted u kind k hpc
  · rcases h.insert_cases hu with hold | ⟨rfl, -⟩
    · exact hs.inserted u kind k hold
    · exact absurd hs.issued (by rw [hids.seqNo]; exact Nat.lt_irrefl _)
  · rcases h.waitFor_cases hu with hold | ⟨-, hmem, -⟩
    · exact hs.waited u w hold
    · exact hs.gone hmem

/-- Completions are found by their IDs, and one that was handed to a waiter is spent. -/
structure Sys.DeliveredOk (s : Sys T) : Prop where
  asked : ∀ d ∈ s.delivered, d.command.msgid = d.asked
  spent : ∀ d ∈ s.delivered, d.OfShutdown ∨ s.Spent d.asked

theorem Step.deliveredOk (h : Step P s a s') (hids : s.IdsOk) (hclaims : s.ClaimsOk)
    (hs : s.DeliveredOk) : s'.DeliveredOk := by
  have hold (d : Delivery T) (hd : d ∈ s.delivered) :
      d.command.msgid = d.asked ∧ (d.OfShutdown ∨ s'.Spent d.asked) :=
    ⟨hs.asked d hd, (hs.spent d hd).imp_right (h.spent hids)⟩
  suffices hall : ∀ d ∈ s'.delivered,
      d.command.msgid = d.asked ∧ (d.OfShutdown ∨ s'.Spent d.asked) from
    ⟨fun d hd => (hall d hd).1, fun d hd => (hall d hd).2⟩
  intro d hd
  cases h with
  | peekTake u i c q hpc hfind hmem =>
      rcases List.mem_append.mp hd with hd | hd
      · exact hold d hd
      · cases List.mem_singleton.mp hd
        refine ⟨(CommQueue.findCompletion_eq_some hfind).1, .inr ⟨hids.rem i hmem, ?_, ?_, ?_⟩⟩
        · exact Finset.notMem_erase i _
        · intro v kind k hv
          rcases update_cases hv with ⟨-, heq⟩ | hv
          · cases heq
          · exact hclaims.fresh v i kind k hv hmem
        · intro v w hv
          rcases update_cases hv with ⟨-, heq⟩ | hv
          · cases heq
          · exact (hclaims.claimed v i w hv).gone hmem
  | waitTake u i w c q hpc hfind =>
      rcases List.mem_append.mp hd with hd | hd
      · exact hold d hd
      · cases List.mem_singleton.mp hd
        have hclaim := hclaims.claimed u i w hpc
        refine ⟨(CommQueue.findCompletion_eq_some hfind).1, .inr ⟨hclaim.issued, hclaim.gone, ?_, ?_⟩⟩
        · intro v kind k hv
          rcases update_cases hv with ⟨-, heq⟩ | hv
          · cases heq
          · exact hclaim.inserted v kind k hv
        · intro v w' hv
          have hne : v ≠ u := by
            rintro rfl
            simp at hv
          exact hne (hclaim.only v w' ((Function.update_of_ne hne _ _).symm.trans hv))
  | exitTake u i c q hpc hfind =>
      rcases List.mem_append.mp hd with hd | hd
      · exact hold d hd
      · cases List.mem_singleton.mp hd
        exact ⟨(CommQueue.findCompletion_eq_some hfind).1, .inl (.inl rfl)⟩
  | closeTake u i c q hpc hfind =>
      rcases List.mem_append.mp hd with hd | hd
      · exact hold d hd
      · cases List.mem_singleton.mp hd
        exact ⟨(CommQueue.findCompletion_eq_some hfind).1, .inl (.inr ⟨_, rfl⟩)⟩
  | _ => exact hold d hd

theorem Reachable.deliveredOk (h : Reachable P s) (hleft : s.IdsLeft) : s.DeliveredOk := by
  obtain ⟨v, hrun⟩ := h
  refine Sys.IdsLeft.invariant ?_ ?_ hrun hleft
  · exact ⟨(fun _ h => by cases h), fun _ h => by cases h⟩
  · intro s a s' hreach _ hleft _ hs _ hst
    exact hst.deliveredOk (hreach.idsOk hleft) (hreach.claimsOk hleft) hs

/-! ## Callers return -/

/-- The steps of the calls under way and of the pseudo thread. -/
def Sys.proceed (P : Platform) (s : Sys T) : Act T → Option (Sys T)
  | .start _ _ => none
  | a => s.step P a

theorem Sys.step_of_proceed (h : s.proceed P a = some s') : s.step P a = some s' := by
  cases a with
  | start t op => cases h
  | caller t | pseudo env => exact h

/-- Nothing is possible but the start of new calls. -/
def Sys.AtRest (P : Platform) (s : Sys T) : Prop := ∀ a, s.proceed P a = none

/-- The completion that the caller waits for has been taken by somebody else: by `exitProc` or
    `close`, which do not look at `rem_reqid`, or from `exitProc`. -/
def Sys.Overtaken (s : Sys T) (t : T) : Prop :=
  ∃ d ∈ s.delivered, (d.OfShutdown ∧ ∃ w, s.pc t = .waitFor d.asked w) ∨ s.pc t = .exitWait d.asked

theorem Sys.AtRest.reqMtx (hrest : s.AtRest P) (hs : s.HolderSearches) : s.reqMtx = none := by
  by_contra hheld
  obtain ⟨t, ht⟩ := Option.ne_none_iff_exists'.mp hheld
  obtain ⟨id, hid⟩ := hs t ht
  have hnone := hrest (.caller t)
  simp [Sys.proceed, Sys.step, Sys.callerStep, hid] at hnone

/-- At rest a caller waits, if it is in a call. -/
theorem Sys.AtRest.pc_cases (hrest : s.AtRest P) (hfree : s.reqMtx = none) (t : T) :
    s.pc t = .idle ∨ ∃ id, s.comq.findCompletion id = none ∧
      ((∃ w, s.pc t = .waitFor id w) ∨ s.pc t = .exitWait id ∨ s.pc t = .closeWait id) := by
  have hnone : s.callerStep t = none := hrest (.caller t)
  unfold Sys.callerStep at hnone
  split at hnone
  case h_1 hpc => exact .inl hpc
  case h_10 id w hpc => exact .inr ⟨id, Option.map_eq_none_iff.mp hnone, .inl ⟨w, hpc⟩⟩
  case h_12 id hpc => exact .inr ⟨id, Option.map_eq_none_iff.mp hnone, .inr (.inl hpc)⟩
  case h_15 id hpc => exact .inr ⟨id, Option.map_eq_none_iff.mp hnone, .inr (.inr hpc)⟩
  case h_4 id kind k hpc => simp [Sys.insertId, hfree] at hnone
  case h_7 id hpc =>
    simp only [Sys.peekFind, hfree, if_true] at hnone
    split at hnone <;> cases hnone
  case h_9 id w hpc =>
    simp only [Sys.waitErase, hfree, if_true] at hnone
    split at hnone <;> cases hnone
  all_goals first | cases hnone | (split at hnone <;> cases hnone)

/-- When a close request has been run, the pseudo thread replies to it or has exited. -/
def Sys.CloseRan (s : Sys T) : Prop :=
  ∀ x ∈ s.ran, x.1.kind = .close → s.pseudo = .closeReply ∨ s.pseudo = .exited

theorem Step.closeRan (h : Step P s a s') (hs : s.CloseRan) : s'.CloseRan := by
  intro x hx hkind
  by_cases ha : ∃ env, a = .pseudo env
  case neg =>
    have hcaller : ∀ env, a ≠ .pseudo env := fun env heq => ha ⟨env, heq⟩
    rw [h.ran_of_caller hcaller] at hx
    rw [(h.pseudoFrame hcaller).pseudo]
    exact hs x hx hkind
  case pos =>
    obtain ⟨env, rfl⟩ := ha
    cases h with
    | runClose env c hpc hcmd hclose => exact .inl rfl
    | run env c f o hpc hcmd hhandler hexec =>
        rcases List.mem_append.mp hx with hold | hnew
        · rcases hs x hold hkind with hp | hp <;> cases hpc.symm.trans hp
        · rw [List.mem_singleton.mp hnew, hhandler] at hkind
          cases hkind
    | complete env c next hpc hcmd =>
        rcases hpc.phases with ⟨hp, -⟩ | ⟨hp, -⟩ | ⟨hp, -⟩ | ⟨-, rfl⟩
        · rcases hs x hx hkind with hp' | hp' <;> cases hp.symm.trans hp'
        · rcases hs x hx hkind with hp' | hp' <;> cases hp.symm.trans hp'
        · rcases hs x hx hkind with hp' | hp' <;> cases hp.symm.trans hp'
        · exact .inr rfl
    | abort env hpc =>
        rcases hs x hx hkind with hp | hp <;> rcases hpc with hpc | hpc <;> cases hpc.symm.trans hp
    | startBlock _ _ _ _ hpc | startFail _ _ hpc | startExit _ hpc | testBlocked _ hpc
    | testReturned _ hpc | pop _ _ _ hpc | failState _ hpc | failClose _ hpc | drainPop _ _ _ hpc
    | drainEmpty _ hpc =>
        rcases hs x hx hkind with hp | hp <;> cases hpc.symm.trans hp

theorem Reachable.closeRan (h : Reachable P s) : s.CloseRan :=
  h.invariant (fun _ _ hx => by cases hx) fun _ _ _ _ hs hst => hst.closeRan hs

/-- While the event loop goes on, at rest all accepted requests have been completed and every
    caller has returned, unless it was overtaken. -/
theorem Reachable.returned (h : Reachable P s) (hleft : s.IdsLeft) (hrest : s.AtRest P)
    (hloop : s.pseudo.finished = false) :
    s.Drained P ∧ ∀ t, s.pc t = .idle ∨ s.Overtaken t := by
  have hpseudo := h.pseudo_rest brokenDriver_broken (hrest (.pseudo _))
  obtain ⟨hpop, hempty⟩ := hpseudo.resolve_left (by simp [hloop])
  have hready : s.comq.request.status = .ready := by
    cases hstatus : s.comq.request.status with
    | ready => rfl
    | closed => rcases h.openOk hstatus with hp | hp <;> simp [hpop, Pseudo.closing] at hp
  have hcmd : s.command = none :=
    h.wf.held.idle (by simp [hpop]) (by rw [hpop]; rfl) (by simp [hpop])
  have hdrained := h.drained hempty hcmd
  refine ⟨hdrained, fun t => ?_⟩
  -- a completion that cannot be found any more has been handed out
  have hgone (b : Ticket T) (hb : b ∈ s.accepted) (hfind : s.comq.findCompletion b.msgid = none) :
      ∃ d ∈ s.delivered, d.asked = b.msgid := by
    rcases hdrained.completed b hb with ⟨c, hc, rfl⟩ | ⟨d, hd, rfl⟩
    · have hsome := CommQueue.findCompletion_isSome hc rfl
      rw [hfind] at hsome
      cases hsome
    · exact ⟨d, hd, ((h.deliveredOk hleft).asked d hd).symm⟩
  have hfree := hrest.reqMtx h.holderSearches
  obtain ⟨v, hrun⟩ := h
  have hgot := gotOk_of_run (accepting_of_ready (K := fun _ => true) hrun hready)
  have h : Reachable P s := ⟨v, hrun⟩
  rcases hrest.pc_cases hfree t with hidle | ⟨id, hfind, ⟨w, hpc⟩ | hpc | hpc⟩
  · exact .inl hidle
  · rcases h.backed hready id (.inr ⟨t, w, hpc⟩) with ⟨u, c, hc, -⟩ | ⟨b, hb, rfl⟩
    · -- nobody builds a command at rest
      rcases hrest.pc_cases hfree u with hu | ⟨i, -, ⟨w', hu⟩ | hu | hu⟩ <;> rw [hu] at hc <;> cases hc
    · obtain ⟨d, hd, hasked⟩ := hgone b hb hfind
      rcases (h.deliveredOk hleft).spent d hd with hshut | hspent
      · exact .inr ⟨d, hd, .inl ⟨hshut, w, hasked ▸ hpc⟩⟩
      · exact absurd hpc (hasked ▸ hspent.waited t w)
  · obtain ⟨-, ⟨b, hb, -, rfl⟩ | ⟨-, hsubmits⟩⟩ := hgot t .exit id rfl (by rw [hpc]; rfl)
    · obtain ⟨d, hd, hasked⟩ := hgone b hb hfind
      exact .inr ⟨d, hd, .inr (hasked ▸ hpc)⟩
    · cases hsubmits
  · exfalso
    obtain ⟨-, ⟨b, hb, -, hid⟩ | ⟨-, hsubmits⟩⟩ := hgot t .close id rfl (by rw [hpc]; rfl)
    · rcases h.closersOk.waits t id hpc with hinv | ⟨c, hc, -, hkind⟩
      · exact h.submitting.accepted b hb (hid.trans hinv)
      · -- the close request has been run, because nothing else is left of what was accepted
        have horder := h.pipeline.order
        have hdropped : s.dropped = [] := h.wf.held.dropped (by rw [hpop]; rfl)
        simp only [Sys.pipeline, Pipeline.running, hcmd, hdropped, hempty, Option.map_none,
          List.map_nil, List.append_nil] at horder
        rw [horder] at hc
        obtain ⟨x, hx, rfl⟩ := List.mem_map.mp hc
        rcases h.closeRan x hx hkind with hp | hp <;> cases hpop.symm.trans hp
    · cases hsubmits

/-! ## Calls end -/

/-- The steps that a call can take, with the work that it makes for the pseudo thread. -/
def Pc.left : Pc T → Nat
  | .idle => 0
  | .done _ => 1
  | .peekSearch _ | .waitFor _ _ | .exitDone | .delete => 2
  | .peekFind _ | .waitErase _ _ | .exitWait _ | .closeWait _ => 3
  | .push _ _ => 10
  | .load _ _ => 11
  | .insert _ _ _ => 12
  | .issue _ _ => 14
  | .test _ _ | .exitTest _ | .closeTest => 15

omit [DecidableEq T] in
theorem After.next_left (k : After) (id : BitVec 64) : (k.next id : Pc T).left ≤ 3 := by
  cases k <;> simp [After.next, Pc.left]

omit [DecidableEq T] in
theorem Moves.left_lt {pc pc' : Pc T} (h : Moves s pc pc') : pc'.left < pc.left := by
  cases h with
  | refused f k h | rejected c k h =>
      exact Nat.lt_of_le_of_lt (After.next_left _ _) (by simp [Pc.left])
  | _ => simp [Pc.left]

variable [Fintype T]

/-- A bound on the steps that the calls under way and the pseudo thread can take. The invalid ID
    costs one step more. -/
def Sys.left (s : Sys T) : Nat :=
  s.due + ∑ t, (s.pc t).left + if s.seqNo = requestIdInvalid then 1 else 0

/-- A sum over the callers, when one of them changes. -/
theorem sum_update {β : Type} (f : β → Nat) (g : T → β) (t : T) (x : β) :
    ∑ u, f (Function.update g t x u) + f (g t) = ∑ u, f (g u) + f x := by
  have hupdate : (fun u => f (Function.update g t x u)) =
      Function.update (fun u => f (g u)) t (f x) := by
    funext u
    simp only [Function.update_apply]
    split <;> rfl
  rw [hupdate, Finset.sum_update_of_mem (Finset.mem_univ t),
    Finset.sum_eq_add_sum_sdiff_singleton_of_mem (Finset.mem_univ t) fun u => f (g u)]
  omega

/-- A caller moves on. -/
theorem Sys.left_lt_of_caller {pc : Pc T} (hpc : s'.pc = Function.update s.pc t pc)
    (hseq : s'.seqNo = s.seqNo) (hlt : s'.due + pc.left < s.due + (s.pc t).left) :
    s'.left < s.left := by
  have hsum := sum_update Pc.left s.pc t pc
  unfold Sys.left
  rw [hpc, hseq]
  omega

theorem Step.left_caller (h : Step P s (.caller t) s') : s'.left < s.left := by
  have hdue := h.due_caller rfl
  cases h with
  | move t pc pc' hpc hm =>
      refine Sys.left_lt_of_caller rfl rfl (Nat.add_lt_add_left ?_ _)
      rw [hpc]
      exact hm.left_lt
  | issueSkip t kind k hpc hinv =>
      simp [Sys.left, Sys.due, hinv]
  | issue t kind k hpc hinv =>
      have hsum := sum_update Pc.left s.pc t (.insert s.seqNo kind k)
      rw [hpc] at hsum
      simp only [Sys.left, Sys.due, Pc.left, hinv, if_false] at hsum ⊢
      split <;> omega
  | push t c k hpc =>
      have hnext := After.next_left (T := T) k c.msgid
      refine Sys.left_lt_of_caller rfl rfl ?_
      have hpush : (Pc.push c k).left = 10 := rfl
      simp only [List.length_append, List.length_singleton] at hdue
      rw [hpc, hpush]
      omega
  | closeTake t id c q hpc hfind =>
      refine Sys.left_lt_of_caller rfl rfl ?_
      have hsame := Nat.add_right_cancel hdue
      rw [hsame, hpc]
      refine Nat.add_lt_add_left ?_ _
      split <;> simp [Pc.left]
  | insert t id kind k hpc | peekLock t id hpc | peekNone t id hpc | peekTake t id c q hpc
  | peekLost t id c q hpc | waitErase t id w hpc | waitTake t id w c q hpc | exitTake t id c q hpc
  | exitDone t hpc | delete t hpc | finish t r hpc =>
      refine Sys.left_lt_of_caller rfl rfl ?_
      have hsame := Nat.add_right_cancel hdue
      rw [hsame, hpc]
      simp [Pc.left]

theorem Sys.proceed_left (h : s.proceed P a = some s') : s'.left < s.left := by
  have hcases := Sys.step_cases (Sys.step_of_proceed h)
  cases a with
  | start t op => cases h
  | caller t => exact hcases.left_caller
  | pseudo env =>
      have hdue := hcases.due_pseudo
      unfold Sys.left
      rw [hcases.callerFrame.pc, hcases.callerFrame.seqNo]
      omega

omit [Fintype T] in
theorem reaches_of_proceed {as : List (Act T)}
    (h : runList (Sys.proceed P) (fun _ _ => true) s as = some s') : Reaches (Sys.step P) s s' := by
  refine runList_induction (I := fun _ u => Reaches (Sys.step P) s u) (.refl _) ?_ h
  exact fun _ u a u' hu _ hstep => .tail hu trivial (Sys.step_of_proceed hstep)

/-- The calls under way come to an end. Without new calls, the callers and the pseudo thread take
    a bounded number of steps, in any order. When nothing is possible any more and the event loop
    has not ended, all accepted requests have been completed and every call has returned, unless
    another caller took the completion of a command that is not its own, of `exitProc` or
    `close`. -/
theorem calls_settle (h : Reachable P s) :
    (∀ as s', runList (Sys.proceed P) (fun _ _ => true) s as = some s' →
      as.length ≤ s.left ∧
      (s'.AtRest P → s'.pseudo.finished = false → s'.IdsLeft →
        s'.Drained P ∧ ∀ t, s'.pc t = .idle ∨ s'.Overtaken t)) ∧
    ∃ as s', runList (Sys.proceed P) (fun _ _ => true) s as = some s' ∧ s'.AtRest P := by
  have hdec : ∀ (u : Sys T) a u', u.proceed P a = some u' → u'.left < u.left :=
    fun _ _ _ => Sys.proceed_left
  refine ⟨fun as s' hrun => ⟨?_, fun hrest hloop hleft => ?_⟩, exists_rest Sys.left hdec s⟩
  · have hlen := runList_length_le Sys.left hdec hrun
    omega
  · obtain ⟨v, hv⟩ := h
    exact Reachable.returned ⟨v, hv.trans (reaches_of_proceed hrun)⟩ hleft hrest hloop

/-- One caller has submitted a VH call and the other one waits for it. -/
theorem calls_settle_two :
    ∃ s : Sys Bool, Reachable linuxPlatform s ∧ s.pc false = .waitFor 0 .user ∧
      ∃ as s', runList (Sys.proceed linuxPlatform) (fun _ _ => true) s as = some s' ∧
        as.length ≤ s.left ∧ s'.AtRest linuxPlatform := by
  obtain ⟨s, hreach, hs⟩ := exists_reaches (Sys.step linuxPlatform) (Sys.init newThread)
    ([.pseudo failingEnv, .pseudo failingEnv, .start true (.callVHAsync 1)] ++
      List.replicate 5 (.caller true) ++ [.start false (.callWaitResult 0), .caller false])
    (fun s => s.pc false == .waitFor 0 .user) (by decide +kernel)
  have hsettle := calls_settle ⟨_, hreach⟩
  obtain ⟨as, s', hrun, hrest⟩ := hsettle.2
  exact ⟨s, ⟨_, hreach⟩, beq_iff_eq.mp hs, as, s', hrun, (hsettle.1 as s' hrun).1, hrest⟩

end Veo
