-- SUMMARY: Closing a context: when the pseudo thread has finished before the context is deleted.
import Veo.ThreadContext.Shutdown
import Veo.ThreadContext.Ids

/-!
# Closing a context

`veo_context_close` deletes the context when `close` has returned zero. `close` returns at
once if the state is EXIT, which the failure sequence of the event loop publishes before its
last use of the context; and the drain completes a close request while it goes on using the
queue. Apart from these two, the context is deleted only after the pseudo thread has finished.
-/

namespace Veo

variable {T : Type}

/-- The condition on the steps of a caller in `close`: while the pseudo thread is still in its
    failure sequence, the caller does not read the state EXIT, and it does not take a close
    request that the drain has completed. -/
def CloseCareful (s : Sys T) : Act T → Prop
  | .caller t =>
    (s.pc t = .closeTest → s.thread.state = .exit → s.pseudo.finished = true) ∧
    (∀ id c q, s.pc t = .closeWait id → s.comq.findCompletion id = some (c, q) →
      c.result = some drainResult → s.pseudo.finished = true)
  | _ => True

/-- A check that implies the condition. -/
def carefulCheck (s : Sys T) : Act T → Bool
  | .caller t =>
    match s.pc t with
    | .closeTest => s.thread.state != .exit || s.pseudo.finished
    | .closeWait _ => s.pseudo.finished
    | _ => true
  | _ => true

theorem careful_of_check {s : Sys T} {a : Act T} (h : carefulCheck s a = true) :
    CloseCareful s a := by
  cases a with
  | caller t =>
      constructor
      · intro hpc hexit
        simpa [carefulCheck, hpc, hexit] using h
      · intro id c q hpc _ _
        simpa [carefulCheck, hpc] using h
  | pseudo env => trivial
  | start t op => trivial

/-! ## Close requests come from `close` -/

/-- A caller in `close` builds a close request. -/
def Pc.closeBuilds : Pc T → Prop
  | .test _ k => k ≠ .close
  | .issue kind k | .insert _ kind k => k = .close → kind = .close
  | .load c k | .push c k => k = .close → c.kind = .close
  | _ => True

/-- A caller that waits in `close` waits for its close request, or for the invalid ID. -/
def Pc.closeWaits (accepted : List (Ticket T)) (pc : Pc T) : Prop :=
  ∀ id, pc = .closeWait id →
    id = requestIdInvalid ∨ ∃ a ∈ accepted, a.msgid = id ∧ a.kind = .close

theorem Op.start_closeBuilds (op : Op) : (op.start : Pc T).closeBuilds := by
  cases op <;> simp [Op.start, Pc.closeBuilds]

theorem After.next_closeBuilds (k : After) (id : BitVec 64) : (k.next id : Pc T).closeBuilds := by
  cases k <;> trivial

theorem Op.start_ne_closeWait (op : Op) (id : BitVec 64) : (op.start : Pc T) ≠ .closeWait id := by
  cases op <;> exact fun h => by cases h

theorem After.next_eq_closeWait {k : After} {id id' : BitVec 64}
    (h : (k.next id : Pc T) = .closeWait id') : k = .close ∧ id' = id := by
  cases k with
  | close => cases h; exact ⟨rfl, rfl⟩
  | _ => cases h

variable {P : Platform} {s s' : Sys T} {a : Act T}

theorem Moves.closeBuilds {pc pc' : Pc T} (h : Moves s pc pc') (hpc : pc.closeBuilds) :
    pc'.closeBuilds := by
  cases h with
  | refused f k h => exact After.next_closeBuilds k _
  | rejected c k h => exact After.next_closeBuilds k _
  | tested f k h => exact fun hk => absurd hk hpc
  | ready c k h => exact hpc
  | exitTested addr => exact fun hk => by cases hk
  | closeTested h => exact fun _ => rfl
  | _ => trivial

theorem Moves.closeWaits {pc pc' : Pc T} (h : Moves s pc pc') (hpc : pc.closeBuilds) :
    pc'.closeWaits s.accepted := by
  intro id heq
  cases h with
  | refused f k h => exact absurd (After.next_eq_closeWait heq).1 hpc
  | rejected c k h =>
      -- a close request that is rejected leaves the invalid ID
      obtain ⟨hk, hid⟩ := After.next_eq_closeWait heq
      refine .inl (hid.trans ?_)
      rw [hpc hk]
      rfl
  | _ => cases heq

/-- The positions of callers in `close`. -/
structure ClosersOk (pc : T → Pc T) (accepted : List (Ticket T)) : Prop where
  builds : ∀ t, (pc t).closeBuilds
  waits : ∀ t, (pc t).closeWaits accepted

theorem ClosersOk.update [DecidableEq T] {pcs : T → Pc T} {t : T} {pc : Pc T}
    {acc acc' : List (Ticket T)} (hs : ClosersOk pcs acc) (hsub : acc ⊆ acc')
    (hbuilds : pc.closeBuilds) (hwaits : pc.closeWaits acc') :
    ClosersOk (Function.update pcs t pc) acc' := by
  constructor
  · intro u
    rw [Function.update_apply]
    split
    · exact hbuilds
    · exact hs.builds u
  · intro u id hu
    rw [Function.update_apply] at hu
    split at hu
    · exact hwaits id hu
    · rcases hs.waits u id hu with hinv | ⟨b, hb, hid⟩
      · exact .inl hinv
      · exact .inr ⟨b, hsub hb, hid⟩

/-- A caller that goes to a position outside of `close`. -/
theorem ClosersOk.move [DecidableEq T] {pcs : T → Pc T} {t : T} {pc : Pc T}
    {acc : List (Ticket T)} (hs : ClosersOk pcs acc) (hbuilds : pc.closeBuilds)
    (hwaits : ∀ id, pc ≠ .closeWait id) : ClosersOk (Function.update pcs t pc) acc :=
  hs.update (List.Subset.refl _) hbuilds fun id heq => absurd heq (hwaits id)

theorem Step.closersOk [DecidableEq T] (h : Step P s a s') (hs : ClosersOk s.pc s.accepted) :
    ClosersOk s'.pc s'.accepted := by
  cases h with
  | start t op hpc => exact hs.move (Op.start_closeBuilds op) (Op.start_ne_closeWait op)
  | move t pc pc' hpc hm =>
      have hbuilds : pc.closeBuilds := hpc ▸ hs.builds t
      exact hs.update (List.Subset.refl _) (hm.closeBuilds hbuilds) (hm.closeWaits hbuilds)
  | issue t kind k hpc hinv =>
      have hbuilds := hs.builds t
      rw [hpc] at hbuilds
      exact hs.move (show (Pc.insert s.seqNo kind k).closeBuilds from hbuilds) (by simp)
  | insert t id kind k hpc hfree =>
      have hbuilds := hs.builds t
      rw [hpc] at hbuilds
      exact hs.move (show (Pc.load ⟨⟨t, s.calls t, id, kind⟩, none⟩ k).closeBuilds from hbuilds)
        (by simp)
  | push t c k hpc =>
      have hbuilds := hs.builds t
      rw [hpc] at hbuilds
      refine hs.update (List.subset_append_left _ [c.toTicket]) (After.next_closeBuilds k c.msgid)
        fun id heq => ?_
      obtain ⟨hk, hid⟩ := After.next_eq_closeWait heq
      exact .inr ⟨c.toTicket, by simp, hid.symm, hbuilds hk⟩
  | closeTake t id c q hpc hfind =>
      refine hs.move ?_ ?_
      · split <;> trivial
      · intro id heq
        split at heq <;> cases heq
  | peekLock t id hpc hfree hmem
  | peekNone t id hpc hfind
  | peekTake t id c q hpc hfind hmem
  | peekLost t id c q hpc hfind hmem
  | waitErase t id w hpc hfree hmem
  | waitTake t id w c q hpc hfind
  | exitTake t id c q hpc hfind
  | exitDone t hpc
  | delete t hpc
  | finish t r hpc => exact hs.move (by trivial) (by simp)
  | _ => exact hs

theorem Reachable.closersOk [DecidableEq T] (h : Reachable P s) : ClosersOk s.pc s.accepted :=
  h.invariant (I := fun s => ClosersOk s.pc s.accepted)
    (fun _ => ⟨fun _ => trivial, fun _ _ heq => by cases heq⟩)
    fun _ _ _ _ hs hst => hst.closersOk hs

/-! ## Close requests are completed last -/

/-- The phases in which the pseudo thread holds a command that is no close request. -/
def Pseudo.holdsHandler : Pseudo → Bool
  | .complete | .failState | .failClose | .failPush => true
  | _ => false

/-- A close request is completed by the drain, or by its own reply, after which the pseudo
    thread has exited; and the context is deleted only when it has finished. -/
structure Sys.CloseOk (s : Sys T) : Prop where
  held : s.pseudo.holdsHandler = true → ∀ c, s.command = some c → c.kind ≠ .close
  drained : s.pseudo = .drainPush → ∀ c, s.command = some c → c.result = some drainResult
  completed : ∀ c ∈ s.comq.completion.queue, c.kind = .close →
    s.pseudo = .exited ∨ c.result = some drainResult
  deleting : ∀ t, s.pc t = .delete → s.pseudo.finished = true
  deleted : s.deleted = true → s.pseudo.finished = true

variable [DecidableEq T]

/-- The pseudo thread takes steps only while it has not finished. -/
theorem Step.not_finished {env : Env} (h : Step P s (.pseudo env) s') :
    s.pseudo.finished = false := by
  cases h with
  | complete env c next hpc hcmd =>
      rcases hpc.phases with ⟨hp, -⟩ | ⟨hp, -⟩ | ⟨hp, -⟩ | ⟨hp, -⟩ <;> rw [hp] <;> rfl
  | abort env hpc => rcases hpc with hpc | hpc <;> rw [hpc] <;> rfl
  | _ => simp_all [Pseudo.finished]

/-- The command in hand after a step of the pseudo thread. -/
theorem Step.closeOk_held {env : Env} (h : Step P s (.pseudo env) s') (hs : s.CloseOk) :
    (s'.pseudo.holdsHandler = true → ∀ c, s'.command = some c → c.kind ≠ .close) ∧
    (s'.pseudo = .drainPush → ∀ c, s'.command = some c → c.result = some drainResult) := by
  cases h with
  | run env c f o hpc hcmd hkind hexec =>
      constructor
      · intro _ d hd
        cases hd
        simp [Command.setResult, hkind]
      · grind
  | drainPop env c q hpc hpop =>
      constructor
      · simp [Pseudo.holdsHandler]
      · intro _ d hd
        cases hd
        rfl
  | complete env c next hpc hcmd =>
      constructor <;> intro _ d hd <;> cases hd
  | failState env hpc => exact ⟨fun _ => hs.held (by rw [hpc]; rfl), by simp⟩
  | failClose env hpc => exact ⟨fun _ => hs.held (by rw [hpc]; rfl), by simp⟩
  | _ => simp [Pseudo.holdsHandler]

/-- The completion queue after a step of the pseudo thread. -/
theorem Step.closeOk_completed {env : Env} (h : Step P s (.pseudo env) s') (hs : s.CloseOk) :
    ∀ c ∈ s'.comq.completion.queue, c.kind = .close →
      s'.pseudo = .exited ∨ c.result = some drainResult := by
  have hnone := h.not_finished
  have hold (c : Command T) (hc : c ∈ s.comq.completion.queue) (hkind : c.kind = .close) :
      c.result = some drainResult := by
    rcases hs.completed c hc hkind with hexited | hdrained
    · simp [hexited, Pseudo.finished] at hnone
    · exact hdrained
  cases h with
  | complete env c next hpc hcmd =>
      intro d hd hkind
      rcases List.mem_append.mp hd with hd | hd
      · exact .inr (hold d hd hkind)
      · cases List.mem_singleton.mp hd
        -- a close request in hand is drained, or the pseudo thread replies to it and exits
        rcases hpc.phases with ⟨hp, -⟩ | ⟨hp, -⟩ | ⟨hp, -⟩ | ⟨-, rfl⟩
        · exact absurd hkind (hs.held (by rw [hp]; rfl) c hcmd)
        · exact absurd hkind (hs.held (by rw [hp]; rfl) c hcmd)
        · exact .inr (hs.drained hp c hcmd)
        · exact .inl rfl
  | pop env c q hpc hpop
  | drainPop env c q hpc hpop =>
      obtain ⟨-, -, hcompl⟩ := CommQueue.popRequest_eq_some hpop
      exact fun d hd hkind => .inr (hold d (hcompl ▸ hd) hkind)
  | _ => exact fun d hd hkind => .inr (hold d hd hkind)

/-- The steps of the pseudo thread. -/
theorem Step.closeOk_pseudo {env : Env} (h : Step P s (.pseudo env) s') (hs : s.CloseOk) :
    s'.CloseOk := by
  have hnone := h.not_finished
  have hframe := h.callerFrame
  obtain ⟨hheld, hdrained⟩ := h.closeOk_held hs
  refine ⟨hheld, hdrained, h.closeOk_completed hs, fun t ht => ?_, fun hd => ?_⟩
  · rw [hframe.pc] at ht
    exact absurd (hs.deleting t ht) (by simp [hnone])
  · rw [hframe.deleted] at hd
    exact absurd (hs.deleted hd) (by simp [hnone])

/-- A command that a caller takes in `close` is its close request. -/
theorem closeTake_finished (h : Reachable P s) (hleft : s.IdsLeft) (hs : s.CloseOk) {t : T}
    {id : BitVec 64} {c : Command T} {q : CommQueue T} (hpc : s.pc t = .closeWait id)
    (hfind : s.comq.findCompletion id = some (c, q)) (hg : CloseCareful s (.caller t)) :
    s.pseudo.finished = true := by
  obtain ⟨hid, -, l₁, l₂, hqueue, -⟩ := CommQueue.findCompletion_eq_some hfind
  have hc : c ∈ s.comq.completion.queue := by simp [hqueue]
  have hacc := h.mem_accepted (.inr (.inr hc))
  have hids := h.idsOk hleft
  rcases h.closersOk.waits t id hpc with hinv | ⟨b, hb, hbid, hkind⟩
  · exact absurd (hid.trans hinv) (hids.ne_invalid hleft hacc)
  · have heq : c.toTicket = b := hids.eq_of_msgid hacc hb (hid.trans hbid.symm)
    rcases hs.completed c hc (by rw [heq, hkind]) with hexited | hdrained
    · rw [hexited]
      rfl
    · exact hg.2 id c q hpc hfind hdrained

/-- The steps of callers. -/
theorem Step.closeOk_caller {t : T} (h : Step P s (.caller t) s') (hr : Reachable P s)
    (hleft : s.IdsLeft) (hs : s.CloseOk) (hg : CloseCareful s (.caller t)) : s'.CloseOk := by
  have hdelete {pc : Pc T} (hpc : pc = .delete → s.pseudo.finished = true) (u : T)
      (hu : Function.update s.pc t pc u = .delete) : s.pseudo.finished = true := by
    rw [Function.update_apply] at hu
    split at hu
    · exact hpc hu
    · exact hs.deleting u hu
  have htake {id : BitVec 64} {c d : Command T} {q : CommQueue T}
      (hfind : s.comq.findCompletion id = some (c, q)) (hd : d ∈ q.completion.queue) :
      d ∈ s.comq.completion.queue := by
    obtain ⟨-, -, l₁, l₂, hqueue, hrest⟩ := CommQueue.findCompletion_eq_some hfind
    rw [hrest] at hd
    rw [hqueue]
    rcases List.mem_append.mp hd with hd | hd
    · exact List.mem_append_left _ hd
    · exact List.mem_append_right _ (List.mem_cons_of_mem c hd)
  have ⟨hheld, hdrained, hcompleted, _, hdeleted⟩ := hs
  cases h with
  | move t pc pc' hpc hm =>
      refine ⟨hheld, hdrained, hcompleted, hdelete fun heq => ?_, hdeleted⟩
      subst heq
      generalize hgoal : (Pc.delete : Pc T) = target at hm
      cases hm with
      | closeSkipped hexit => exact hg.1 hpc hexit
      | refused f k hf => cases k <;> cases hgoal
      | rejected c k hr => cases k <;> cases hgoal
      | _ => cases hgoal
  | closeTake t id c q hpc hfind =>
      have hfinished := closeTake_finished hr hleft hs hpc hfind hg
      exact ⟨hheld, hdrained, fun d hd => hcompleted d (htake hfind hd), hdelete fun _ => hfinished,
        hdeleted⟩
  | delete t hpc =>
      exact ⟨hheld, hdrained, hcompleted, hdelete (by simp), fun _ => hs.deleting t hpc⟩
  | peekTake t id c q hpc hfind hmem
  | peekLost t id c q hpc hfind hmem
  | waitTake t id w c q hpc hfind
  | exitTake t id c q hpc hfind =>
      exact ⟨hheld, hdrained, fun d hd => hcompleted d (htake hfind hd), hdelete (by simp), hdeleted⟩
  | push t c k hpc =>
      refine ⟨hheld, hdrained, hcompleted, hdelete fun heq => ?_, hdeleted⟩
      cases k <;> cases heq
  | issueSkip t kind k hpc hinv => exact ⟨hheld, hdrained, hcompleted, hs.deleting, hdeleted⟩
  | _ => exact ⟨hheld, hdrained, hcompleted, hdelete (by simp), hdeleted⟩

theorem Step.closeOk (h : Step P s a s') (hr : Reachable P s) (hleft : s.IdsLeft) (hs : s.CloseOk)
    (hg : CloseCareful s a) : s'.CloseOk := by
  cases a with
  | pseudo env => exact h.closeOk_pseudo hs
  | caller t => exact h.closeOk_caller hr hleft hs hg
  | start t op =>
      cases h with
      | start t op hpc =>
          refine ⟨hs.held, hs.drained, hs.completed, fun u hu => ?_, hs.deleted⟩
          simp only [Function.update_apply] at hu
          split at hu
          · cases op <;> cases hu
          · exact hs.deleting u hu

/-- In every run that meets the condition, and in which no ID is issued twice, the pseudo thread
    of a deleted context takes no further step. -/
theorem deleted_not_touched (t : VeThread)
    (h : Transition.Run (Sys.step P) CloseCareful (Sys.init t) s) (hleft : s.IdsLeft)
    (hdeleted : s.deleted = true) (env : Env) : s.step P (.pseudo env) = none := by
  have hinv : s.CloseOk := by
    refine Sys.IdsLeft.invariant ?_ ?_ h hleft
    · constructor <;> simp [Sys.init, Pseudo.holdsHandler, CommQueue.init]
    · intro s a s' hr _ hleft _ hs hg hst
      exact hst.closeOk hr hleft hs hg
  have hfinished := hinv.deleted hdeleted
  cases hp : s.pseudo <;> simp [hp, Pseudo.finished] at hfinished <;>
    simp [Sys.step, Sys.pseudoStep, hp]

/-- A context is closed while its event loop is idle. -/
theorem deleted_not_touched_idle :
    ∃ s : Sys Bool,
      Transition.Run (Sys.step linuxPlatform) CloseCareful (Sys.init newThread) s ∧
      s.deleted = true ∧ ∀ env, s.step linuxPlatform (.pseudo env) = none := by
  obtain ⟨s, hrun, hs⟩ := Transition.exists_run (Sys.step linuxPlatform)
    carefulCheck (Sys.init newThread)
    [.pseudo failingEnv, .pseudo failingEnv, .start true .close, .caller true, .caller true,
      .caller true, .caller true, .caller true, .pseudo failingEnv, .pseudo failingEnv,
      .pseudo failingEnv, .caller true, .caller true]
    (fun s => s.deleted && s.issued == 1) (fun _ _ h => careful_of_check h) (by decide)
  simp only [Bool.and_eq_true, beq_iff_eq] at hs
  have hleft : s.IdsLeft := by
    rw [Sys.IdsLeft, hs.2]
    decide
  exact ⟨s, hrun, hs.1, deleted_not_touched newThread hrun hleft hs.1⟩

/-- A read transfer fails; its caller closes the context after the event loop has set the
    state, and the event loop goes on to close the queue of the deleted context. -/
theorem deleted_touched :
    ∃ s : Sys Bool, Reachable linuxPlatform s ∧ s.deleted = true ∧ s.pseudo = .failClose ∧
      s.pc false = .idle ∧ s.calls false = 0 ∧
      (s.step linuxPlatform (.pseudo failingEnv)).isSome = true := by
  obtain ⟨s, hreach, hs⟩ := Transition.exists_reaches (Sys.step linuxPlatform)
    (Sys.init newThread)
    [.pseudo failingEnv, .pseudo failingEnv, .start true (.asyncReadMem 0x100 0x1000 8),
      .caller true, .caller true, .caller true, .caller true, .caller true, .caller true,
      .pseudo failingEnv, .pseudo failingEnv, .pseudo failingEnv,
      .start true .close, .caller true, .caller true]
    (fun s => s.deleted && s.pseudo == .failClose && s.pc false == .idle &&
      s.calls false == 0 && (s.step linuxPlatform (.pseudo failingEnv)).isSome) (by decide)
  simp only [Bool.and_eq_true, beq_iff_eq] at hs
  obtain ⟨⟨⟨⟨hdel, hpc⟩, hidle⟩, hcalls⟩, hstep⟩ := hs
  exact ⟨s, ⟨_, hreach⟩, hdel, hpc, hidle, hcalls, hstep⟩

end Veo
