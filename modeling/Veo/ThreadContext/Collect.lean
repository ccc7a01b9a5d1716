-- SUMMARY: Calls that collect the result of their own request: what they return, and that they do return.
import Veo.ThreadContext.Exit
import Veo.ThreadContext.Internal
import Veo.ThreadContext.Quiescence

/-!
# Calls that collect a result

`doOnContext`, `openContext`, `readMem` and `writeMem` submit a request to the worker and collect
its result by `callWaitResult`. What such a call returns is what became of its own request: it was
refused, it was drained, or it was run. While the event loop goes on the call does return.
-/

namespace Veo

open Transition

variable {T : Type} {P : Platform} {s s' : Sys T} {a : Act T} {t : T} {f : Handler} {w : Waiter}

/-! ## What became of a request -/

/-- No request of the call `o` has been accepted. -/
def Sys.Unaccepted (o : T × Nat) (s : Sys T) : Prop := ∀ b ∈ s.accepted, b.owner ≠ o

/-- No command of the call `o` has been run. -/
def Sys.Unrun (o : T × Nat) (s : Sys T) : Prop := ∀ x ∈ s.ran, x.1.owner ≠ o

/-- The submitter refuses a request with the handler `f`, or its request is rejected. -/
def Sys.Refuses (f : Handler) (s : Sys T) : Prop :=
  f.isNull = true ∨ s.thread.state = .exit ∨ s.comq.request.status = .closed

/-- What `callWaitResult` returns and stores for the request of the call `o`, whose handler is
    `f`. -/
inductive Sys.Answered (s : Sys T) (o : T × Nat) (f : Handler) :
    CommandStatus → Option (BitVec 64) → Prop where
  | refused (hnone : s.Unaccepted o) (h : s.Refuses f) : s.Answered o f .error none
  | dropped (b : Ticket T) (hb : b ∈ s.dropped) (howner : b.owner = o)
      (hkind : b.kind = .handler f) : s.Answered o f .unfinished (some 0)
  | ran (b : Ticket T) (r : CmdResult) (hb : (b, r) ∈ s.ran) (howner : b.owner = o)
      (hkind : b.kind = .handler f) : s.Answered o f r.status (some r.retval)

/-- The request of the current call of `t`, with the ID `id`, is in the queues or in hand. -/
def Sys.Pending (s : Sys T) (t : T) (f : Handler) (id : BitVec 64) : Prop :=
  ∃ b ∈ s.pipeline.live, b.owner = (t, s.calls t) ∧ b.msgid = id ∧ b.kind = .handler f

/-- What is true of a caller in a call that collects the result of a request with the handler `f`
    by `w`. -/
def Sys.AtCall (s : Sys T) (t : T) (f : Handler) (w : Waiter) : Pc T → Prop
  | .test g k => g = f ∧ k = .collect w ∧ s.Unaccepted (t, s.calls t)
  | .issue kind k | .insert _ kind k =>
    kind = .handler f ∧ k = .collect w ∧ s.Unaccepted (t, s.calls t)
  | .load c k | .push c k => c.kind = .handler f ∧ k = .collect w ∧ s.Unaccepted (t, s.calls t)
  | .waitErase id w' => w' = w ∧
    ((id = requestIdInvalid ∧ s.Unaccepted (t, s.calls t) ∧ s.Refuses f) ∨ s.Pending t f id)
  | .waitFor id w' => w' = w ∧ s.Pending t f id
  | .done r => ∃ st rv, s.Answered (t, s.calls t) f st rv ∧ r = w.returns st rv
  | .idle => ∃ st rv, s.Answered (t, s.calls t) f st rv
  | _ => False

theorem Step.dropped_subset [DecidableEq T] (h : Step P s a s') : s.dropped ⊆ s'.dropped := by
  cases h with
  | drainPop => exact List.subset_append_left _ _
  | _ => exact List.Subset.refl _

variable [DecidableEq T]

/-- Only the caller itself gets a request of its call accepted. -/
theorem Step.unaccepted {n : Nat} (h : Step P s a s') (hr : Reachable P s) (ha : a ≠ .caller t)
    (hs : s.Unaccepted (t, n)) : s'.Unaccepted (t, n) := by
  intro b hb howner
  rcases h.accepted_cases hb with hold | ⟨u, c, k, rfl, hpc, rfl⟩
  · exact hs b hold howner
  · obtain ⟨hcaller, -⟩ := hr.wf.owned.built u c (by rw [hpc]; rfl)
    have htu : c.caller = t := (Prod.mk.inj howner).1
    exact ha (by rw [← hcaller, htu])

/-- A context that refuses a request does so for ever. -/
theorem Step.refuses (h : Step P s a s') (hr : Reachable P s) (hs : s.Refuses f) :
    s'.Refuses f := by
  rcases hs with hnull | hexit | hclosed
  · exact .inl hnull
  · exact .inr (.inl (h.exit hr.stateOk hexit).1)
  · refine .inr (.inr ?_)
    cases hstatus : s'.comq.request.status with
    | closed => rfl
    | ready => cases hclosed.symm.trans (h.ready hstatus)

/-- What became of a request stays so, unless the request is accepted. -/
theorem Step.answered {o : T × Nat} {st : CommandStatus} {rv : Option (BitVec 64)}
    (h : Step P s a s') (hr : Reachable P s) (hnone : s.Unaccepted o → s'.Unaccepted o)
    (hs : s.Answered o f st rv) : s'.Answered o f st rv := by
  cases hs with
  | refused hu hrefuses => exact .refused (hnone hu) (h.refuses hr hrefuses)
  | dropped b hb howner hkind => exact .dropped b (h.dropped_subset hb) howner hkind
  | ran b r hb howner hkind => exact .ran b r (h.ran_subset hb) howner hkind

/-! ## Commands that have not been run -/

/-- A command that has not been run yet does not belong to a call whose command has been run. -/
theorem Reachable.unrun (hr : Reachable P s) {b : Ticket T}
    (hb : b ∈ s.pipeline.running ++ (s.pipeline.dropped ++ s.pipeline.waiting)) :
    s.Unrun b.owner := by
  have hnodup : (s.pipeline.accepted.map Ticket.owner).Nodup := hr.wf.owned.nodup
  rw [hr.pipeline.order, List.append_assoc, List.append_assoc, List.map_append] at hnodup
  intro x hx heq
  refine List.disjoint_of_nodup_append hnodup (List.mem_map_of_mem (List.mem_map_of_mem hx)) ?_
  exact heq ▸ List.mem_map_of_mem hb

/-- The command that is being run. -/
theorem Reachable.unrun_of_run (hr : Reachable P s) {c : Command T} (hpc : s.pseudo = .run)
    (hcmd : s.command = some c) : s.Unrun c.owner := by
  refine hr.unrun (b := c.toTicket) (List.mem_append_left _ ?_)
  have hnone := hr.wf.held.running hpc c hcmd
  simp [Pipeline.running, Sys.pipeline, hcmd, hnone]

theorem Reachable.unrun_of_queued (hr : Reachable P s) {c : Command T}
    (hc : c ∈ s.comq.request.queue) : s.Unrun c.owner :=
  hr.unrun (b := c.toTicket)
    (List.mem_append_right _ (List.mem_append_right _ (List.mem_map_of_mem hc)))

theorem Reachable.unrun_of_dropped (hr : Reachable P s) {b : Ticket T} (hb : b ∈ s.dropped) :
    s.Unrun b.owner :=
  hr.unrun (List.mem_append_right _ (List.mem_append_left _ hb))

/-! ## The command of a call waits for its own caller -/

/-- An internal caller takes a completion with the ID that it waits for. -/
theorem Step.delivered_internal {u : T} (h : Step P s (.caller u) s') (hs : s.InternalOk)
    {d : Delivery T} (hd : d ∈ s'.delivered) :
    d ∈ s.delivered ∨
      ((s.pc u).awaits = some d.command.msgid ∧ d.command ∈ s.comq.completion.queue) := by
  have hinside := hs.inside u
  have htake {id : BitVec 64} {c : Command T} {q : CommQueue T} {ret : Ret}
      (hawaits : (s.pc u).awaits = some id) (hfind : s.comq.findCompletion id = some (c, q))
      (hd : d ∈ s.delivered ++ [⟨u, id, c, ret⟩]) : d ∈ s.delivered ∨
        ((s.pc u).awaits = some d.command.msgid ∧ d.command ∈ s.comq.completion.queue) := by
    obtain ⟨hid, -, l₁, l₂, hqueue, -⟩ := CommQueue.findCompletion_eq_some hfind
    rcases List.mem_append.mp hd with hd | hd
    · exact .inl hd
    · cases List.mem_singleton.mp hd
      exact .inr ⟨hid ▸ hawaits, by simp [hqueue]⟩
  cases h with
  | waitTake t id w c q hpc hfind => exact htake (by rw [hpc]; rfl) hfind hd
  | exitTake t id c q hpc hfind => exact htake (by rw [hpc]; rfl) hfind hd
  | peekTake t id c q hpc hfind hmem | closeTake t id c q hpc hfind =>
      rw [hpc] at hinside
      cases hinside
  | _ => exact .inl hd

/-- The steps of others leave the command of an internal caller in the queues or in hand. -/
theorem Step.live_of_other (h : Step P s a s') (hr : Reachable P s) (hr' : Reachable P s')
    (hleft : s.IdsLeft) (hs : s.InternalOk) {b : Ticket T} (hb : b ∈ s.pipeline.live)
    (ha : a ≠ .caller b.caller) : b ∈ s'.pipeline.live := by
  have hacc : b ∈ s'.accepted := h.accepted_subset (hr.pipeline.live_accepted hb)
  rcases List.mem_append.mp (hr'.pipeline.conserved.mem_iff.mp hacc) with hlive | hdel
  · exact hlive
  · -- otherwise it was taken in this step
    exfalso
    have hnot := hr.pipeline.live_not_delivered hb
    simp only [Sys.pipeline, List.map_map, List.mem_map, Function.comp] at hdel hnot
    obtain ⟨d, hd, hdb⟩ := hdel
    cases a with
    | pseudo env => exact hnot ⟨d, h.callerFrame.delivered ▸ hd, hdb⟩
    | start u op =>
        cases h with
        | start => exact hnot ⟨d, hd, hdb⟩
    | caller u =>
        rcases h.delivered_internal hs hd with hold | ⟨hawaits, hmem⟩
        · exact hnot ⟨d, hold, hdb⟩
        · have hids := hr.idsOk hleft
          have hbacc := hr.pipeline.live_accepted hb
          have hmsgid : d.command.msgid = b.msgid := congrArg Ticket.msgid hdb
          rcases hs.own u _ hawaits with hinv | ⟨e, he, hcaller, hid⟩
          · exact hids.ne_invalid hleft hbacc (hmsgid ▸ hinv)
          · have heq : e = b := hids.eq_of_msgid he hbacc (hid.trans hmsgid)
            subst heq
            exact ha (by rw [hcaller])

/-- A completion with the ID of a command in the queues or in hand is the one of that command. -/
theorem Reachable.eq_of_found (hr : Reachable P s) (hleft : s.IdsLeft) {id : BitVec 64}
    {c : Command T} {q : CommQueue T} {b : Ticket T}
    (hfind : s.comq.findCompletion id = some (c, q)) (hb : b ∈ s.pipeline.live)
    (hid : b.msgid = id) : c.toTicket = b ∧ c ∈ s.comq.completion.queue := by
  obtain ⟨hcid, -, l₁, l₂, hqueue, -⟩ := CommQueue.findCompletion_eq_some hfind
  have hmem : c ∈ s.comq.completion.queue := by simp [hqueue]
  refine ⟨?_, hmem⟩
  exact (hr.idsOk hleft).eq_of_msgid (hr.mem_accepted (.inr (.inr hmem)))
    (hr.pipeline.live_accepted hb) (hcid.trans hid.symm)

/-! ## A call goes through its steps -/

/-- The steps of others keep what is true of a call. -/
theorem Step.atCall_of_other (h : Step P s a s') (hr : Reachable P s) (hr' : Reachable P s')
    (hleft : s.IdsLeft) (hs : s.InternalOk) (hat : s.AtCall t f w (s.pc t)) (hcaller : a ≠ .caller t)
    (hstart : ∀ op, a ≠ .start t op) : s'.AtCall t f w (s'.pc t) := by
  obtain ⟨hpc, hcalls⟩ := h.other hcaller hstart
  have hnone (hu : s.Unaccepted (t, s.calls t)) : s'.Unaccepted (t, s'.calls t) :=
    hcalls ▸ h.unaccepted hr hcaller hu
  have hpending {id : BitVec 64} (hp : s.Pending t f id) : s'.Pending t f id := by
    obtain ⟨b, hb, howner, hid, hkind⟩ := hp
    have ht : b.caller = t := (Prod.mk.inj howner).1
    exact ⟨b, h.live_of_other hr hr' hleft hs hb (ht ▸ hcaller), by rw [howner, hcalls], hid, hkind⟩
  have hanswered {st : CommandStatus} {rv : Option (BitVec 64)}
      (hans : s.Answered (t, s.calls t) f st rv) : s'.Answered (t, s'.calls t) f st rv :=
    hcalls ▸ h.answered hr (h.unaccepted hr hcaller) hans
  rw [hpc]
  cases hp : s.pc t with
  | test | issue | insert | load | push =>
      rw [hp] at hat
      exact ⟨hat.1, hat.2.1, hnone hat.2.2⟩
  | waitErase id w' =>
      rw [hp] at hat
      obtain ⟨hw, ⟨hid, hu, hrefuses⟩ | hlive⟩ := hat
      · exact ⟨hw, .inl ⟨hid, hnone hu, h.refuses hr hrefuses⟩⟩
      · exact ⟨hw, .inr (hpending hlive)⟩
  | waitFor id w' =>
      rw [hp] at hat
      exact ⟨hat.1, hpending hat.2⟩
  | done r =>
      rw [hp] at hat
      obtain ⟨st, rv, hans, heq⟩ := hat
      exact ⟨st, rv, hanswered hans, heq⟩
  | idle =>
      rw [hp] at hat
      obtain ⟨st, rv, hans⟩ := hat
      exact ⟨st, rv, hanswered hans⟩
  | _ =>
      rw [hp] at hat
      exact hat.elim

/-- The caller takes the completion of its own request. -/
theorem Sys.Pending.answered (hr : Reachable P s) (hleft : s.IdsLeft) {id : BitVec 64}
    {c : Command T} {q : CommQueue T} (hp : s.Pending t f id)
    (hfind : s.comq.findCompletion id = some (c, q)) :
    ∃ r, c.result = some r ∧ s.Answered (t, s.calls t) f r.status (some r.retval) := by
  obtain ⟨b, hb, howner, hid, hkind⟩ := hp
  obtain ⟨rfl, hc⟩ := hr.eq_of_found hleft hfind hb hid
  obtain ⟨r, hres, ⟨hran, -⟩ | ⟨rfl, hdrop⟩⟩ := hr.completion_origin hc
  · exact ⟨r, hres, .ran _ r hran howner hkind⟩
  · exact ⟨drainResult, hres, .dropped _ hdrop howner hkind⟩

/-- The steps of the caller itself. -/
theorem Step.atCall_own (h : Step P s (.caller t) s') (hr : Reachable P s) (hleft : s.IdsLeft)
    (hs : s.InternalOk) (hat : s.AtCall t f w (s.pc t)) : s'.AtCall t f w (s'.pc t) := by
  have hinside := hs.inside t
  have hanswered {st : CommandStatus} {rv : Option (BitVec 64)} (hacc : s'.accepted = s.accepted)
      (hans : s.Answered (t, s.calls t) f st rv) : s'.Answered (t, s'.calls t) f st rv :=
    h.calls_of_caller.symm ▸ h.answered hr (fun hnone b hb => hnone b (hacc ▸ hb)) hans
  cases h with
  | move t pc pc' hpc hm =>
      rw [hpc] at hat hinside
      simp only [Function.update_self]
      cases hm with
      | refused g k hrefused =>
          obtain ⟨rfl, rfl, hnone⟩ := hat
          refine ⟨rfl, .inl ⟨rfl, hnone, ?_⟩⟩
          exact hrefused.imp_right .inl
      | tested g k hstate =>
          obtain ⟨rfl, hk⟩ := hat
          exact ⟨rfl, hk⟩
      | ready c k hready => exact hat
      | rejected c k hrejected =>
          obtain ⟨-, rfl, hnone⟩ := hat
          refine ⟨rfl, .inl ⟨?_, hnone, .inr (.inr ?_)⟩⟩
          · exact Kind.rejectedId_of_internal (Bool.and_eq_true_iff.mp hinside).1 _
          · cases hstatus : s.comq.request.status with
            | closed => rfl
            | ready => exact absurd hstatus hrejected
      | waitUnknown id w' hunknown =>
          obtain ⟨rfl, ⟨-, hnone, hrefuses⟩ | ⟨b, hb, howner, hid, -⟩⟩ := hat
          · exact ⟨.error, none, hanswered rfl (.refused hnone hrefuses), rfl⟩
          · -- nobody else has taken the ID out of the set
            obtain ⟨rfl, -⟩ := Prod.mk.inj howner
            have hmem := hs.registered b hb (by rw [hpc]; rfl)
            exact absurd (hid ▸ hmem) hunknown
      | _ => exact hat.elim
  | issueSkip t kind k hpc hinv =>
      simp only [hpc] at hat ⊢
      exact hat
  | issue t kind k hpc hinv | insert t id kind k hpc hfree =>
      rw [hpc] at hat
      simp only [Function.update_self]
      exact hat
  | push t c k hpc =>
      rw [hpc] at hat
      obtain ⟨hkind, rfl, -⟩ := hat
      obtain ⟨hcaller, hcall, -⟩ := hr.wf.owned.built t c (by rw [hpc]; rfl)
      simp only [Function.update_self, After.next]
      refine ⟨rfl, .inr ⟨c.toTicket, ?_, Prod.ext hcaller hcall, rfl, hkind⟩⟩
      simp [Sys.pipeline, Pipeline.live]
  | waitErase t id w' hpc hfree hmem =>
      rw [hpc] at hat
      simp only [Function.update_self]
      obtain ⟨rfl, ⟨rfl, -⟩ | hpending⟩ := hat
      · exact absurd hmem ((hr.idsOk hleft).invalid_not_mem hleft)
      · exact ⟨rfl, hpending⟩
  | waitTake t id w' c q hpc hfind =>
      rw [hpc] at hat
      obtain ⟨rfl, hpending⟩ := hat
      obtain ⟨r, hres, hans⟩ := hpending.answered hr hleft hfind
      simp only [Function.update_self]
      exact ⟨r.status, some r.retval, hanswered rfl hans, by simp [Sys.resultOf, hres]⟩
  | finish t r hpc =>
      rw [hpc] at hat
      simp only [Function.update_self]
      obtain ⟨st, rv, hans, -⟩ := hat
      exact ⟨st, rv, hanswered rfl hans⟩
  | peekLock t id hpc hfree hmem
  | peekNone t id hpc hfind
  | peekTake t id c q hpc hfind hmem
  | peekLost t id c q hpc hfind hmem
  | exitTake t id c q hpc hfind
  | exitDone t hpc
  | closeTake t id c q hpc hfind
  | delete t hpc =>
      rw [hpc] at hat
      exact hat.elim

/-- In every run of internal calls, the call of `t` that is at its first step in `s₀` is as
    described until its caller starts another one. -/
theorem atCall_of_run {v : VeThread} {s₀ : Sys T} (h₀ : Run (Sys.step P) Internal (Sys.init v) s₀)
    (h : Run (Sys.step P) Internal s₀ s) (hleft : s.IdsLeft)
    (hpc : s₀.pc t = .test f (.collect w)) :
    s₀.calls t ≤ s.calls t ∧ (s.calls t = s₀.calls t → s.AtCall t f w (s.pc t)) := by
  have hr₀ : Reachable P s₀ := ⟨v, h₀.reaches⟩
  induction h with
  | refl =>
      refine ⟨Nat.le_refl _, fun _ => hpc ▸ ⟨rfl, rfl, fun b hb howner => ?_⟩⟩
      -- the call has not pushed anything yet
      obtain ⟨rfl, hcall⟩ := Prod.mk.inj howner
      have hpushed := (hr₀.wf.owned.past b hb).2 hcall
      rw [hpc] at hpushed
      cases hpushed
  | tail hrun hg hst ih =>
      rename_i s₁ s₂ a
      have hstep := Sys.step_cases hst
      have hleft₁ : s₁.IdsLeft := Nat.lt_of_le_of_lt hstep.issued_le hleft
      obtain ⟨hle, hat⟩ := ih hleft₁
      have hall := h₀.trans hrun
      have hr₁ : Reachable P s₁ := ⟨v, hall.reaches⟩
      have hr₂ : Reachable P s₂ := ⟨v, .tail hall.reaches trivial hst⟩
      have hinternal : s₁.InternalOk := internalOk_of_run hall hleft₁
      refine ⟨Nat.le_trans hle (hstep.calls_le t), fun hsame => ?_⟩
      have hsame₁ : s₁.calls t = s₀.calls t :=
        Nat.le_antisymm (hsame ▸ hstep.calls_le t) hle
      rcases hstep.call_cases t with ⟨rfl, -⟩ | ⟨op, -, hnext⟩ | ⟨hcaller, hstart, -⟩
      · exact hstep.atCall_own hr₁ hleft₁ hinternal (hat hsame₁)
      · omega
      · exact hstep.atCall_of_other hr₁ hr₂ hleft₁ hinternal (hat hsame₁) hcaller hstart

/-! ## Internal calls end -/

/-- The command that a caller waits for is in the queues or in hand. -/
def Sys.AwaitsLive (s : Sys T) : Prop :=
  ∀ t id, (s.pc t).awaits = some id →
    id = requestIdInvalid ∨ ∃ b ∈ s.pipeline.live, b.caller = t ∧ b.msgid = id

/-- The step of the caller itself. -/
theorem Step.awaitsLive_own {t : T} (h : Step P s (.caller t) s') (hr : Reachable P s)
    (hin : s.InternalOk) (hs : s.AwaitsLive) {id : BitVec 64}
    (hid : (s'.pc t).awaits = some id) :
    id = requestIdInvalid ∨ ∃ b ∈ s'.pipeline.live, b.caller = t ∧ b.msgid = id := by
  have hinside := hin.inside t
  cases h with
  | move t pc pc' hpc hm =>
      rw [hpc] at hinside
      simp only [Function.update_self] at hid
      exact .inl (hm.awaits hinside hid)
  | issueSkip t kind k hpc hinv =>
      dsimp only at hid
      rw [hpc] at hid
      cases hid
  | push t c k hpc =>
      rw [hpc] at hinside
      obtain ⟨-, hk⟩ := Bool.and_eq_true_iff.mp hinside
      simp only [Function.update_self, After.next_awaits hk] at hid
      obtain ⟨hcaller, -⟩ := hr.wf.owned.built t c (by rw [hpc]; rfl)
      refine .inr ⟨c.toTicket, Sys.mem_live (.inl ?_), hcaller, Option.some.inj hid⟩
      simp
  | waitErase t i w hpc hfree hmem =>
      simp only [Function.update_self] at hid
      exact hs t id (by rw [hpc]; exact hid)
  | issue t kind k hpc hinv | insert t i kind k hpc hfree | waitTake t i w c q hpc hfind
  | exitTake t i c q hpc hfind | exitDone t hpc | finish t r hpc =>
      simp only [Function.update_self] at hid
      cases hid
  | peekLock t i hpc hfree hmem
  | peekNone t i hpc hfind
  | peekTake t i c q hpc hfind hmem
  | peekLost t i c q hpc hfind hmem
  | closeTake t i c q hpc hfind
  | delete t hpc =>
      rw [hpc] at hinside
      cases hinside

theorem Step.awaitsLive (h : Step P s a s') (hr : Reachable P s) (hr' : Reachable P s')
    (hleft : s.IdsLeft) (hg : Internal s a) (hin : s.InternalOk) (hs : s.AwaitsLive) :
    s'.AwaitsLive := by
  intro t id hid
  have hother (hpc : s'.pc t = s.pc t) (ha : a ≠ .caller t) :
      id = requestIdInvalid ∨ ∃ b ∈ s'.pipeline.live, b.caller = t ∧ b.msgid = id := by
    refine (hs t id (hpc ▸ hid)).imp_right ?_
    rintro ⟨b, hb, rfl, hmsgid⟩
    exact ⟨b, h.live_of_other hr hr' hleft hin hb ha, rfl, hmsgid⟩
  by_cases ha : a = .caller t
  · subst ha
    exact h.awaitsLive_own hr hin hs hid
  · by_cases hstart : ∃ op, a = .start t op
    · obtain ⟨op, rfl⟩ := hstart
      cases h with
      | start t op hpc =>
          simp only [Function.update_self, Op.start_awaits hg] at hid
          cases hid
    · exact hother (h.other ha fun op heq => hstart ⟨op, heq⟩).1 ha

theorem awaitsLive_of_run {v : VeThread} (h : Run (Sys.step P) Internal (Sys.init v) s)
    (hleft : s.IdsLeft) : s.AwaitsLive := by
  have hboth : s.InternalOk ∧ s.AwaitsLive := by
    refine Sys.IdsLeft.invariant (I := fun s => s.InternalOk ∧ s.AwaitsLive) ⟨?_, ?_⟩ ?_ h hleft
    · have hinit : Run (Sys.step P) Internal (Sys.init v : Sys T) (Sys.init v) := .refl _
      exact internalOk_of_run hinit (Nat.lt_of_le_of_lt (Nat.zero_le _) hleft)
    · exact fun t id hid => by cases hid
    · rintro s a s' hr hr' hleft - ⟨hin, hs⟩ hg hst
      exact ⟨hst.internalOk hr hr' hleft hg hin, hst.awaitsLive hr hr' hleft hg hin hs⟩
  exact hboth.2

/-- At rest, while the event loop goes on, every internal call has returned. -/
theorem internal_rest {v : VeThread} (h : Run (Sys.step P) Internal (Sys.init v) s)
    (hleft : s.IdsLeft) (hrest : s.AtRest P) (hloop : s.pseudo.finished = false) (t : T) :
    s.pc t = .idle := by
  have hr : Reachable P s := ⟨v, h.reaches⟩
  refine ((hr.returned hleft hrest hloop).2 t).resolve_right ?_
  rintro ⟨d, hd, hwaits⟩
  have hawaits : (s.pc t).awaits = some d.asked := by
    rcases hwaits with ⟨-, w, hpc⟩ | hpc <;> rw [hpc] <;> rfl
  have hdel : d.command.toTicket ∈ s.pipeline.delivered.map Prod.fst :=
    List.mem_map_of_mem (List.mem_map_of_mem hd)
  have hacc : d.command.toTicket ∈ s.accepted :=
    hr.pipeline.conserved.mem_iff.mpr (List.mem_append_right _ hdel)
  have hasked := (hr.deliveredOk hleft).asked d hd
  have hids := hr.idsOk hleft
  rcases awaitsLive_of_run h hleft t _ hawaits with hinv | ⟨b, hb, -, hmsgid⟩
  · exact hids.ne_invalid hleft hacc (hasked.trans hinv)
  · have heq := hids.eq_of_msgid (hr.pipeline.live_accepted hb) hacc (hmsgid.trans hasked.symm)
    exact hr.pipeline.live_not_delivered hb (heq ▸ hdel)

end Veo
