-- SUMMARY: Invariants of every run: the mutex of the ID set, the identity of commands, and the command in hand.
import Veo.ThreadContext.Steps
import Veo.Lib.Pipeline

/-!
# Invariants of a thread context

Three facts hold in every reachable state: a search of `callPeekResult` holds `req_mtx`,
no two commands come from one call, and the pseudo thread holds a command exactly in the
phases that need one. From them the queues of the context are a pipeline: every step of
the system is a step of the pipeline or leaves it alone.
-/

namespace Veo

variable {T : Type}

/-! ## Positions of callers -/

/-- The call has not pushed a command yet and may still do so. -/
def Pc.unpushed : Pc T → Bool
  | .test .. | .issue .. | .insert .. | .load .. | .push .. | .exitTest _ | .closeTest => true
  | _ => false

/-- The command that a caller has built and not pushed yet. -/
def Pc.building : Pc T → Option (Command T)
  | .load c _ | .push c _ => some c
  | _ => none

/-- The ID that a caller looks for while it holds `req_mtx`. -/
def Pc.searching : Pc T → Option (BitVec 64)
  | .peekSearch id => some id
  | _ => none

section Positions
variable (k : After) (op : Op) (id : BitVec 64)

@[simp, grind =] theorem After.next_unpushed : (k.next id : Pc T).unpushed = false := by
  cases k <;> rfl
@[simp, grind =] theorem After.next_building : (k.next id : Pc T).building = none := by
  cases k <;> rfl
@[simp, grind =] theorem After.next_searching : (k.next id : Pc T).searching = none := by
  cases k <;> rfl
@[simp, grind =] theorem Op.start_building : (op.start : Pc T).building = none := by
  cases op <;> rfl
@[simp, grind =] theorem Op.start_searching : (op.start : Pc T).searching = none := by
  cases op <;> rfl

end Positions

namespace Moves
variable {s : Sys T} {pc pc' : Pc T}

theorem searching (h : Moves s pc pc') : pc'.searching = none := by
  cases h <;> first | rfl | exact After.next_searching _ _

theorem building (h : Moves s pc pc') : pc'.building = none ∨ pc'.building = pc.building := by
  cases h <;> first | exact .inr rfl | exact .inl rfl | exact .inl (After.next_building _ _)

theorem unpushed (h : Moves s pc pc') : pc'.unpushed = true → pc.unpushed = true := by
  cases h <;> simp [Pc.unpushed]

end Moves

variable {P : Platform} {s s' : Sys T} {a : Act T}

/-! ## The mutex of the IDs -/

/-- A search of `callPeekResult` holds `req_mtx`, and its ID is still in `rem_reqid`. -/
def Sys.Locked (s : Sys T) : Prop :=
  ∀ t id, (s.pc t).searching = some id → s.reqMtx = some t ∧ id ∈ s.remReqid

theorem Step.locked [DecidableEq T] (h : Step P s a s') (hs : s.Locked) : s'.Locked := by
  intro u id hu
  have hold := hs u id
  cases h with
  | start t op hpc => grind [Function.update_apply]
  | move t pc pc' hpc hmove => grind [Function.update_apply, hmove.searching]
  | peekLock t reqid hpc hfree hmem =>
      -- nobody else searches, because the mutex was free
      grind [Function.update_apply, Pc.searching]
  | peekNone t reqid hpc hfind => grind [Function.update_apply, Pc.searching, hs t reqid]
  | peekTake t reqid c q hpc hfind hmem =>
      grind [Function.update_apply, Pc.searching, hs t reqid]
  | peekLost t reqid c q hpc hfind hmem =>
      grind [Function.update_apply, Pc.searching, hs t reqid]
  | _ => first | exact hold hu | grind [Function.update_apply, Pc.searching]

/-! ## The identity of commands -/

/-- The call that a command comes from. -/
def Ticket.owner (a : Ticket T) : T × Nat := (a.caller, a.call)

/-- The commands that were accepted come from different calls, and the ones that are being
    built come from the current calls of their callers. -/
structure Sys.Owned (s : Sys T) : Prop where
  nodup : (s.accepted.map Ticket.owner).Nodup
  past : ∀ a ∈ s.accepted, a.call ≤ s.calls a.caller ∧
    (a.call = s.calls a.caller → (s.pc a.caller).unpushed = false)
  built : ∀ t c, (s.pc t).building = some c →
    c.caller = t ∧ c.call = s.calls t ∧ c.result = none

/-- A command that is pushed comes from a call that has accepted none. -/
theorem Sys.Owned.fresh (hs : s.Owned) {t : T} {c : Command T} {k : After}
    (hpc : s.pc t = .push c k) : ∀ a ∈ s.accepted, a.owner ≠ c.toTicket.owner := by
  intro a ha heq
  obtain ⟨hcaller, hcall, -⟩ := hs.built t c (by rw [hpc]; rfl)
  obtain ⟨ht, hn⟩ := Prod.mk.inj heq
  have hpushed := (hs.past a ha).2 (by rw [hn, ht, hcaller, hcall])
  rw [ht, hcaller, hpc] at hpushed
  cases hpushed

/-- The steps of callers. -/
theorem Step.owned_caller [DecidableEq T] {t : T} (h : Step P s (.caller t) s') (hs : s.Owned) :
    s'.Owned := by
  constructor
  case nodup =>
    cases h with
    | push t c k hpc =>
        rw [List.map_append]
        refine List.Nodup.append hs.nodup (List.nodup_singleton _) fun o ho hc => ?_
        obtain ⟨a, ha, rfl⟩ := List.mem_map.mp ho
        exact hs.fresh hpc a ha (List.mem_singleton.mp hc)
    | _ => exact hs.nodup
  case past =>
    intro b hb
    have hold := hs.past b
    cases h with
    | move t pc pc' hpc hmove =>
        have hmoved := hmove.unpushed
        grind [Function.update_apply]
    | push t c k hpc =>
        have hbuilt := hs.built t c
        grind [Function.update_apply, Pc.building]
    | _ => grind [Function.update_apply, Pc.unpushed]
  case built =>
    intro w c hw
    have hold := hs.built w c
    cases h with
    | move t pc pc' hpc hmove =>
        have hmoved := hmove.building
        grind [Function.update_apply]
    | _ => grind [Function.update_apply, Pc.building]

theorem Step.owned [DecidableEq T] (h : Step P s a s') (hs : s.Owned) : s'.Owned := by
  cases a with
  | caller t => exact h.owned_caller hs
  | start t op =>
      cases h with
      | start t op hpc =>
          refine ⟨hs.nodup, fun b hb => ?_, fun u c hu => ?_⟩
          · have hold := hs.past b hb
            grind [Function.update_apply]
          · have hold := hs.built u c
            grind [Function.update_apply]
  | pseudo env =>
      have hframe := h.callerFrame
      constructor
      case nodup => exact hframe.accepted ▸ hs.nodup
      case past =>
        rw [hframe.accepted, hframe.calls, hframe.pc]
        exact hs.past
      case built =>
        rw [hframe.calls, hframe.pc]
        exact hs.built

/-! ## The command in hand -/

/-- The phases in which the pseudo thread has a command with its result. -/
def Pseudo.holdsResult : Pseudo → Bool
  | .complete | .failState | .failClose | .failPush | .drainPush | .closeReply => true
  | _ => false

/-- The phases in which the pseudo thread has begun to drain the request queue. -/
def Pseudo.draining : Pseudo → Bool
  | .drain | .drainPush | .returned => true
  | _ => false

/-- The pseudo thread holds a command without a result while it runs it, a command with
    its result until it has pushed it, and none otherwise. -/
structure Sys.HeldOk (s : Sys T) : Prop where
  request : ∀ c ∈ s.comq.request.queue, c.result = none
  running : s.pseudo = .run → ∀ c, s.command = some c → c.result = none
  result : s.pseudo.holdsResult = true → ∀ c, s.command = some c → c.result.isSome = true
  idle : s.pseudo ≠ .run → s.pseudo.holdsResult = false → s.pseudo ≠ .aborted → s.command = none
  dropped : s.pseudo.draining = false → s.dropped = []

theorem Completes.cases {p q : Pseudo} (h : Completes p q) :
    p.holdsResult = true ∧ q ≠ .run ∧ q.holdsResult = false ∧
      (q.draining = false → p.draining = false) := by
  cases h <;> simp [Pseudo.holdsResult, Pseudo.draining]

/-- A step of the pseudo thread that leaves its command alone. -/
theorem Sys.HeldOk.turn (hs : s.HeldOk)
    (hreq : s'.comq.request.queue = s.comq.request.queue) (hcmd : s'.command = s.command)
    (hdrop : s'.dropped = s.dropped) (hrun : s'.pseudo ≠ .run)
    (hres : s'.pseudo.holdsResult = true → s.pseudo.holdsResult = true)
    (hidle : s'.pseudo.holdsResult = false → s'.pseudo ≠ .aborted →
      s.pseudo ≠ .run ∧ s.pseudo.holdsResult = false ∧ s.pseudo ≠ .aborted)
    (hdrain : s'.pseudo.draining = false → s.pseudo.draining = false) : s'.HeldOk := by
  constructor
  case request => exact hreq ▸ hs.request
  case running => exact fun hp => absurd hp hrun
  case result => exact fun hp => hcmd ▸ hs.result (hres hp)
  case idle =>
    intro _ hnone hne
    obtain ⟨h₁, h₂, h₃⟩ := hidle hnone hne
    exact hcmd ▸ hs.idle h₁ h₂ h₃
  case dropped => exact fun hp => hdrop ▸ hs.dropped (hdrain hp)

theorem Step.heldOk [DecidableEq T] (h : Step P s a s') (ho : s.Owned) (hs : s.HeldOk) : s'.HeldOk := by
  have ⟨hreq, hrun, hres, hidle, hdrop⟩ := hs
  cases h with
  | push t c k hpc =>
      refine ⟨fun d hd => ?_, hrun, hres, hidle, hdrop⟩
      rcases List.mem_append.mp hd with hd | hd
      · exact hreq d hd
      · cases List.mem_singleton.mp hd
        exact (ho.built t c (by rw [hpc]; rfl)).2.2
  | peekTake t id c q hpc hfind hmem
  | peekLost t id c q hpc hfind hmem
  | waitTake t id w c q hpc hfind
  | exitTake t id c q hpc hfind
  | closeTake t id c q hpc hfind =>
      obtain ⟨-, hq, -⟩ := CommQueue.findCompletion_eq_some hfind
      exact ⟨fun d hd => hreq d (hq ▸ hd), hrun, hres, hidle, hdrop⟩
  | pop env c q hpc hpop =>
      obtain ⟨hq, -, -⟩ := CommQueue.popRequest_eq_some hpop
      have hmem (d : Command T) (hd : d ∈ c :: q.request.queue) : d.result = none :=
        hreq d (hq ▸ hd)
      refine ⟨fun d hd => hmem d (List.mem_cons_of_mem c hd), fun _ d hd => ?_, ?_, ?_, ?_⟩
      · cases hd
        exact hmem c List.mem_cons_self
      · simp [Pseudo.holdsResult]
      · simp
      · intro _
        exact hdrop (by rw [hpc]; rfl)
  | drainPop env c q hpc hpop =>
      obtain ⟨hq, -, -⟩ := CommQueue.popRequest_eq_some hpop
      refine ⟨fun d hd => hreq d (hq ▸ List.mem_cons_of_mem c hd), ?_, ?_, ?_, ?_⟩
      · simp
      · intro _ d hd
        cases hd
        rfl
      · simp [Pseudo.holdsResult]
      · simp [Pseudo.draining]
  | runClose env c hpc hcmd hkind =>
      refine ⟨hreq, ?_, ?_, ?_, ?_⟩
      · simp
      · intro _ d hd
        cases hd
        rfl
      · simp [Pseudo.holdsResult]
      · intro _
        exact hdrop (by rw [hpc]; rfl)
  | run env c f o hpc hcmd hkind hexec =>
      refine ⟨hreq, ?_, ?_, ?_, ?_⟩
      · grind
      · intro _ d hd
        cases hd
        rfl
      · grind [Pseudo.holdsResult]
      · intro _
        exact hdrop (by rw [hpc]; rfl)
  | complete env c next hpc hcmd =>
      obtain ⟨hres', hne, hnext, hdrain⟩ := hpc.cases
      refine ⟨hreq, fun h => absurd h hne, ?_, fun _ _ _ => rfl, fun h => hdrop (hdrain h)⟩
      simp [hnext]
  | startBlock env r v th hpc hexec hstatus hcollect
  | startFail env r hpc hexec hstatus
  | startExit env hpc
  | testBlocked env hpc hblocked
  | testReturned env hpc hblocked
  | failState env hpc
  | failClose env hpc
  | drainEmpty env hpc hempty =>
      exact hs.turn rfl rfl rfl (by simp) (by simp [hpc, Pseudo.holdsResult])
        (by simp [hpc, Pseudo.holdsResult]) (by simp [hpc, Pseudo.draining])
  | abort env hpc =>
      refine hs.turn rfl rfl rfl (by simp) (by simp [Pseudo.holdsResult]) (by simp) fun _ => ?_
      rcases hpc with hpc | hpc <;> rw [hpc] <;> rfl
  | _ => exact ⟨hreq, hrun, hres, hidle, hdrop⟩

/-! ## The pipeline -/

/-- The invariants of every run. -/
structure Sys.Wf (s : Sys T) : Prop where
  locked : s.Locked
  owned : s.Owned
  held : s.HeldOk

theorem Step.wf [DecidableEq T] (h : Step P s a s') (hs : s.Wf) : s'.Wf :=
  ⟨h.locked hs.locked, h.owned hs.owned, h.heldOk hs.owned hs.held⟩

theorem Sys.init_wf (t : VeThread) : (Sys.init t : Sys T).Wf := by
  constructor
  case locked =>
    intro u id h
    cases h
  case owned =>
    refine ⟨.nil, ?_, ?_⟩
    · intro a h
      cases h
    · intro u c h
      cases h
  case held =>
    refine ⟨?_, ?_, ?_, fun _ _ _ => rfl, fun _ => rfl⟩
    · intro c h
      cases h
    · intro h
      cases h
    · intro h
      cases h

/-- The queues of a context as a pipeline. -/
def Sys.pipeline (s : Sys T) : Pipeline (Ticket T) CmdResult where
  accepted := s.accepted
  waiting := s.comq.request.queue.map Command.toTicket
  held := s.command.map fun c => (c.toTicket, c.result)
  finished := s.comq.completion.queue.map fun c => (c.toTicket, c.result)
  delivered := s.delivered.map fun d => (d.command.toTicket, d.command.result)
  ran := s.ran
  dropped := s.dropped

/-- The result of a command that is drained. -/
def drainResult : CmdResult := ⟨0, .unfinished⟩

/-- Taking a command out of the completion queue is a delivery of the pipeline. -/
theorem pipeline_deliver {id : BitVec 64} {c : Command T} {q : CommQueue T} {d : Delivery T}
    {s' : Sys T} (hfind : s.comq.findCompletion id = some (c, q)) (hd : d.command = c)
    (hs' : s'.pipeline = { s.pipeline with
      waiting := q.request.queue.map Command.toTicket
      finished := q.completion.queue.map fun c => (c.toTicket, c.result)
      delivered := s.pipeline.delivered ++ [(d.command.toTicket, d.command.result)] }) :
    Pipeline.Step drainResult s.pipeline s'.pipeline := by
  obtain ⟨-, hreq, l₁, l₂, hold, hnew⟩ := CommQueue.findCompletion_eq_some hfind
  rw [hs', hreq, hnew, List.map_append]
  exact .deliver s.pipeline _ _ _ (by simp [Sys.pipeline, hold, hd])

/-- Every step of the system is a step of its pipeline, or leaves it alone. -/
theorem Step.pipeline [DecidableEq T] (h : Step P s a s') (hs : s.Wf) :
    s'.pipeline = s.pipeline ∨ Pipeline.Step drainResult s.pipeline s'.pipeline := by
  cases h with
  | push t c k hpc =>
      have hnew : c.toTicket ∉ s.accepted := fun hmem => hs.owned.fresh hpc _ hmem rfl
      right
      simpa [Sys.pipeline] using Pipeline.Step.accept (d := drainResult) s.pipeline c.toTicket hnew
  | peekTake t id c q hpc hfind hmem =>
      exact .inr (pipeline_deliver (d := ⟨t, id, c, Sys.resultOf .user c⟩) hfind rfl
        (by simp [Sys.pipeline]))
  | peekLost t id c q hpc hfind hmem =>
      -- the mutex keeps the ID in the set between the lookup and the removal
      exact absurd (hs.locked t id (by rw [hpc]; rfl)).2 hmem
  | waitTake t id w c q hpc hfind =>
      exact .inr (pipeline_deliver (d := ⟨t, id, c, Sys.resultOf w c⟩) hfind rfl
        (by simp [Sys.pipeline]))
  | exitTake t id c q hpc hfind =>
      exact .inr (pipeline_deliver (d := ⟨t, id, c, .unit⟩) hfind rfl (by simp [Sys.pipeline]))
  | closeTake t id c q hpc hfind =>
      exact .inr (pipeline_deliver (d := ⟨t, id, c, .closed (Sys.closeRetval c)⟩) hfind rfl
        (by simp [Sys.pipeline]))
  | pop env c q hpc hpop =>
      obtain ⟨hq, -, hcompl⟩ := CommQueue.popRequest_eq_some hpop
      have hcmd : s.command = none := hs.held.idle (by simp [hpc]) (by rw [hpc]; rfl) (by simp [hpc])
      have hdrop : s.dropped = [] := hs.held.dropped (by rw [hpc]; rfl)
      have hnone : c.result = none := hs.held.request c (by rw [hq]; exact List.mem_cons_self)
      right
      simpa [Sys.pipeline, hcompl, hnone] using Pipeline.Step.take (d := drainResult) s.pipeline
        c.toTicket (q.request.queue.map Command.toTicket) (by simp [Sys.pipeline, hq])
        (by simp [Sys.pipeline, hcmd]) hdrop
  | runClose env c hpc hcmd hkind =>
      have hnone := hs.held.running hpc c hcmd
      have hdrop : s.dropped = [] := hs.held.dropped (by rw [hpc]; rfl)
      right
      simpa [Sys.pipeline] using Pipeline.Step.run (d := drainResult) s.pipeline c.toTicket
        ⟨0, .ok⟩ (by simp [Sys.pipeline, hcmd, hnone]) hdrop
  | run env c f o hpc hcmd hkind hexec =>
      have hnone := hs.held.running hpc c hcmd
      have hdrop : s.dropped = [] := hs.held.dropped (by rw [hpc]; rfl)
      right
      simpa [Sys.pipeline] using Pipeline.Step.run (d := drainResult) s.pipeline c.toTicket
        o.result (by simp [Sys.pipeline, hcmd, hnone]) hdrop
  | complete env c next hpc hcmd =>
      obtain ⟨r, hr⟩ := Option.isSome_iff_exists.mp (hs.held.result hpc.cases.1 c hcmd)
      right
      simpa [Sys.pipeline, hr] using Pipeline.Step.finish (d := drainResult) s.pipeline c.toTicket
        r (by simp [Sys.pipeline, hcmd, hr])
  | drainPop env c q hpc hpop =>
      obtain ⟨hq, -, hcompl⟩ := CommQueue.popRequest_eq_some hpop
      have hcmd : s.command = none := hs.held.idle (by simp [hpc]) (by rw [hpc]; rfl) (by simp [hpc])
      right
      simpa [Sys.pipeline, hcompl, drainResult] using Pipeline.Step.drop (d := drainResult)
        s.pipeline c.toTicket (q.request.queue.map Command.toTicket) (by simp [Sys.pipeline, hq])
        (by simp [Sys.pipeline, hcmd])
  | _ => exact .inl rfl

/-! ## Reachable states -/

variable [DecidableEq T]

/-- What every step preserves holds in every reachable state. -/
theorem Reachable.invariant {I : Sys T → Prop} (hinit : ∀ t, I (Sys.init t))
    (hstep : ∀ s a s', s.Wf → I s → Step P s a s' → I s') (h : Reachable P s) : I s := by
  obtain ⟨t, hrun⟩ := h
  refine Transition.Run.invariant_of (B := Sys.Wf) ?_ ?_ hrun (Sys.init_wf t) (hinit t)
  · intro s a s' hwf hst
    exact (Sys.step_cases hst).wf hwf
  · intro s a s' hwf hinv _ hst
    exact hstep s a s' hwf hinv (Sys.step_cases hst)

theorem Reachable.wf (h : Reachable P s) : s.Wf :=
  h.invariant Sys.init_wf fun _ _ _ hwf _ hst => hst.wf hwf

/-- The queues of every reachable context are a well-formed pipeline. -/
theorem Reachable.pipeline (h : Reachable P s) : s.pipeline.Inv drainResult := by
  refine h.invariant (I := fun s => s.pipeline.Inv drainResult)
    (fun t => Pipeline.empty_inv drainResult) fun s a s' hwf hinv hst => ?_
  rcases hst.pipeline hwf with heq | hpipe
  · exact heq ▸ hinv
  · exact hpipe.inv hinv

/-- A command is not both run and drained. -/
theorem Reachable.not_dropped_of_ran (h : Reachable P s) {x : Ticket T × CmdResult}
    (hx : x ∈ s.ran) : x.1 ∉ s.dropped := by
  have hnodup := h.pipeline.nodup
  rw [h.pipeline.order, List.append_assoc, List.append_assoc] at hnodup
  intro hdrop
  refine List.disjoint_of_nodup_append hnodup (List.mem_map_of_mem hx) ?_
  exact List.mem_append_right _ (List.mem_append_left _ hdrop)

/-- A completion has the result with which its command was run, or the one of a drained
    command. -/
theorem Reachable.completion_origin (h : Reachable P s) {c : Command T}
    (hc : c ∈ s.comq.completion.queue) :
    ∃ r, c.result = some r ∧
      (((c.toTicket, r) ∈ s.ran ∧ c.toTicket ∉ s.dropped) ∨
        (r = drainResult ∧ c.toTicket ∈ s.dropped)) := by
  have hfin : (c.toTicket, c.result) ∈ s.pipeline.finished := List.mem_map_of_mem hc
  obtain ⟨r, hr⟩ := Option.isSome_iff_exists.mp
    (h.pipeline.result _ _ (List.mem_append_left _ hfin))
  rw [hr] at hfin
  refine ⟨r, hr, ?_⟩
  rcases h.pipeline.origin _ _ (List.mem_append_left _ (List.mem_append_right _ hfin)) with
    hran | hdrop
  · exact .inl ⟨hran, h.not_dropped_of_ran hran⟩
  · exact .inr hdrop

end Veo
