-- SUMMARY: Requests are conserved, run in the order of acceptance, and delivered at most once with their own result.
import Veo.ThreadContext.Invariant

/-!
# Conservation of requests

The runs here are the ones of users of a context: any number of callers submit requests
and collect results with any ID, while the pseudo thread runs its event loop.
-/

namespace Veo

variable {T : Type}

/-- The calls of the users of a context. -/
def Op.isUser : Op → Bool
  | .callAsync _ | .callVHAsync _ | .asyncReadMem .. | .asyncWriteMem .. | .callPeekResult _
  | .callWaitResult _ => true
  | _ => false

/-- The positions in the calls of users. -/
def Pc.isUser : Pc T → Bool
  | .test _ k => k == .submit
  | .issue kind k | .insert _ kind k => k == .submit && kind != .close
  | .load c k | .push c k => k == .submit && c.kind != .close
  | .waitErase _ w | .waitFor _ w => w == .user
  | .idle | .peekFind _ | .peekSearch _ | .done _ => true
  | .exitTest _ | .exitWait _ | .exitDone | .closeTest | .closeWait _ | .delete => false

theorem Op.start_isUser {op : Op} (h : op.isUser = true) : (op.start : Pc T).isUser = true := by
  cases op <;> first | rfl | cases h

theorem After.next_isUser {k : After} (h : k = .submit) (id : BitVec 64) :
    (k.next id : Pc T).isUser = true := by
  subst h
  rfl

theorem Moves.isUser {s : Sys T} {pc pc' : Pc T} (h : Moves s pc pc') (hpc : pc.isUser = true) :
    pc'.isUser = true := by
  cases h with
  | refused f k h => exact After.next_isUser (by simpa [Pc.isUser] using hpc) _
  | rejected c k h =>
      exact After.next_isUser (by simpa [Pc.isUser] using (Bool.and_eq_true_iff.mp hpc).1) _
  | tested f k h => exact Bool.and_eq_true_iff.mpr ⟨hpc, rfl⟩
  | ready c k h => exact hpc
  | peekUnknown id h => rfl
  | waitUnknown id w h => rfl
  | exitSkipped addr => cases hpc
  | exitTested addr => cases hpc
  | closeSkipped h => cases hpc
  | closeTested h => cases hpc

/-- All callers are in calls of users, which make no close requests, and every completion was
    taken by a caller that asked for its ID and returns its result. -/
structure Sys.UserOnly (s : Sys T) : Prop where
  pc : ∀ t, (s.pc t).isUser = true
  kinds : ∀ b ∈ s.accepted, b.kind ≠ .close
  delivered : ∀ d ∈ s.delivered,
    d.asked = d.command.msgid ∧ d.returns = Sys.resultOf .user d.command

/-- The steps of users: no other calls are started. -/
def UserStep (_ : Sys T) (a : Act T) : Prop := ∀ t op, a = .start t op → op.isUser = true

variable {P : Platform} {s s' : Sys T} {a : Act T}

theorem Step.userOnly [DecidableEq T] (h : Step P s a s') (hs : s.UserOnly) (ha : UserStep s a) :
    s'.UserOnly := by
  obtain ⟨hpcs, hkinds, hdel⟩ := hs
  have hupdate {t : T} {pc : Pc T} (hpc : pc.isUser = true) (u : T) :
      (Function.update s.pc t pc u).isUser = true := by
    rw [Function.update_apply]
    split
    · exact hpc
    · exact hpcs u
  have hdeliver {t : T} {id : BitVec 64} {c : Command T} {q : CommQueue T}
      (hfind : s.comq.findCompletion id = some (c, q)) :
      ∀ d ∈ s.delivered ++ [⟨t, id, c, Sys.resultOf .user c⟩],
        d.asked = d.command.msgid ∧ d.returns = Sys.resultOf .user d.command := by
    intro d hd
    rcases List.mem_append.mp hd with hd | hd
    · exact hdel d hd
    · cases List.mem_singleton.mp hd
      exact ⟨(CommQueue.findCompletion_eq_some hfind).1.symm, rfl⟩
  cases h with
  | start t op hpc => exact ⟨hupdate (Op.start_isUser (ha t op rfl)), hkinds, hdel⟩
  | move t pc pc' hpc hmove => exact ⟨hupdate (hmove.isUser (hpc ▸ hpcs t)), hkinds, hdel⟩
  | issue t kind k hpc h => exact ⟨hupdate (by simpa [hpc, Pc.isUser] using hpcs t), hkinds, hdel⟩
  | insert t id kind k hpc hfree =>
      exact ⟨hupdate (by simpa [hpc, Pc.isUser] using hpcs t), hkinds, hdel⟩
  | push t c k hpc =>
      have hbuilt : k = .submit ∧ c.kind ≠ .close := by simpa [hpc, Pc.isUser] using hpcs t
      refine ⟨hupdate (After.next_isUser hbuilt.1 _), fun b hb => ?_, hdel⟩
      rcases List.mem_append.mp hb with hold | hnew
      · exact hkinds b hold
      · exact List.mem_singleton.mp hnew ▸ hbuilt.2
  | peekLock t id hpc hfree hmem => exact ⟨hupdate rfl, hkinds, hdel⟩
  | peekNone t id hpc hfind => exact ⟨hupdate rfl, hkinds, hdel⟩
  | peekTake t id c q hpc hfind hmem => exact ⟨hupdate rfl, hkinds, hdeliver hfind⟩
  | peekLost t id c q hpc hfind hmem => exact ⟨hupdate rfl, hkinds, hdel⟩
  | waitErase t id w hpc hfree hmem =>
      exact ⟨hupdate (by simpa [hpc, Pc.isUser] using hpcs t), hkinds, hdel⟩
  | waitTake t id w c q hpc hfind =>
      have hw : w = .user := by simpa [hpc, Pc.isUser] using hpcs t
      subst hw
      exact ⟨hupdate rfl, hkinds, hdeliver hfind⟩
  | exitTake t id c q hpc hfind => exact absurd (hpcs t) (by simp [hpc, Pc.isUser])
  | exitDone t hpc => exact absurd (hpcs t) (by simp [hpc, Pc.isUser])
  | closeTake t id c q hpc hfind => exact absurd (hpcs t) (by simp [hpc, Pc.isUser])
  | delete t hpc => exact absurd (hpcs t) (by simp [hpc, Pc.isUser])
  | finish t r hpc => exact ⟨hupdate rfl, hkinds, hdel⟩
  | _ => exact ⟨hpcs, hkinds, hdel⟩

/-- What holds of the requests of a context, whose VE thread was `v` at first, at every moment. -/
structure Sys.Conserved [DecidableEq T] (P : Platform) (v : VeThread) (s : Sys T) : Prop where
  /-- Every accepted command is in exactly one place. -/
  nodup : s.accepted.Nodup
  places : s.accepted.Perm
    (s.comq.request.queue.map Command.toTicket ++ s.command.toList.map Command.toTicket ++
      s.comq.completion.queue.map Command.toTicket ++
      s.delivered.map fun d => d.command.toTicket)
  /-- Commands are run at most once, in the order of acceptance. The last one of these may
      still be running. -/
  order : s.ran.map Prod.fst ++ s.pipeline.running <+: s.accepted
  once : (s.ran.map Prod.fst ++ s.pipeline.running).Nodup
  /-- A command is delivered at most once. -/
  deliveredOnce : (s.delivered.map fun d => d.command.toTicket).Nodup
  /-- A caller gets a command that it asked for, with the result that the command's own
      handler set, or with the one of a command that was drained. -/
  delivered : ∀ d ∈ s.delivered, d.asked = d.command.msgid ∧
    ∃ r, d.command.result = some r ∧ d.returns = .result r.status (some r.retval) ∧
      ((d.command.toTicket, r) ∈ s.ran ∨
        (r = ⟨0, .unfinished⟩ ∧ d.command.toTicket ∈ s.dropped))
  /-- The results of the commands that were run are the outcomes of their own handlers, each in
      the step of the run that ran the command. -/
  handled : ∀ x ∈ s.ran, ∃ s₁ env s₂ f o, Transition.Run (Sys.step P) UserStep (Sys.init v) s₁ ∧
    s₁.step P (.pseudo env) = some s₂ ∧ Transition.Run (Sys.step P) UserStep s₂ s ∧
    s₁.RunsAs P env x ∧ x.1.kind = .handler f ∧ f.exec P env s₁.thread = .ok o ∧ o.result = x.2

theorem Sys.places_perm (h : s.pipeline.Inv drainResult) : s.accepted.Perm
    (s.comq.request.queue.map Command.toTicket ++ s.command.toList.map Command.toTicket ++
      s.comq.completion.queue.map Command.toTicket ++
      s.delivered.map fun d => d.command.toTicket) := by
  have hplaces := h.conserved
  cases hcmd : s.command <;>
    simpa [Pipeline.places, Sys.pipeline, hcmd, Function.comp_def] using hplaces

/-- In every run of users requests are conserved, run in order, and delivered once. -/
theorem requests_conserved [DecidableEq T] (P : Platform) (t : VeThread) {s : Sys T}
    (h : Transition.Run (Sys.step P) UserStep (Sys.init t) s) : s.Conserved P t := by
  have hpipe := Reachable.pipeline ⟨t, h.reaches⟩
  have huser : s.UserOnly := h.invariant
    (fun s a s' hs ha hst => (Sys.step_cases hst).userOnly hs ha)
    ⟨fun _ => rfl, (fun _ hb => by cases hb), fun _ hd => by cases hd⟩
  have hplaces := Sys.places_perm hpipe
  have hprefix : s.ran.map Prod.fst ++ s.pipeline.running <+: s.accepted := by
    refine ⟨s.pipeline.dropped ++ s.pipeline.waiting, ?_⟩
    rw [← List.append_assoc]
    exact hpipe.order.symm
  constructor
  case nodup => exact hpipe.nodup
  case places => exact hplaces
  case order => exact hprefix
  case once => exact hpipe.nodup.sublist hprefix.sublist
  case deliveredOnce =>
    exact (hplaces.nodup_iff.mp hpipe.nodup).sublist (List.sublist_append_right _ _)
  case delivered =>
    intro d hd
    obtain ⟨hasked, hreturns⟩ := huser.delivered d hd
    refine ⟨hasked, ?_⟩
    have hmem : (d.command.toTicket, d.command.result) ∈ s.pipeline.delivered :=
      List.mem_map.mpr ⟨d, hd, rfl⟩
    have hsome := hpipe.result _ _ (List.mem_append_right _ hmem)
    obtain ⟨r, hr⟩ := Option.isSome_iff_exists.mp hsome
    rw [hr] at hmem
    refine ⟨r, hr, ?_, hpipe.origin _ _ (List.mem_append_right _ hmem)⟩
    rw [hreturns, Sys.resultOf, hr]
    rfl
  case handled =>
    intro x hx
    rcases ran_origin h hx with hfirst | ⟨s₁, env, s₂, hbefore, -, hst, hafter, hruns⟩
    · cases hfirst
    · rcases hruns.result with ⟨hclose, -⟩ | ⟨f, o, hkind, hexec, hresult⟩
      · exact absurd hclose (huser.kinds _ (hpipe.ran_accepted hx))
      · exact ⟨s₁, env, s₂, f, o, hbefore, hst, hafter, hruns, hkind, hexec, hresult⟩

/-- A VH call is submitted, run and waited for. -/
theorem requests_conserved_vh_call :
    ∃ s : Sys Bool,
      Transition.Run (Sys.step linuxPlatform) UserStep (Sys.init ⟨.unknown, 0, fun _ => 0, [], []⟩) s ∧
      s.Conserved linuxPlatform ⟨.unknown, 0, fun _ => 0, [], []⟩ ∧ s.delivered.length = 1 := by
  let env := Env.plain [] [.raised (.blockRequest 0 0x8000)]
  let check : Sys Bool → Act Bool → Bool
    | _, .start _ op => op.isUser
    | _, _ => true
  have hcheck : ∀ s a, check s a = true → UserStep s a := by
    intro s a h t op ha
    subst ha
    exact h
  obtain ⟨s, hrun, hs⟩ := Transition.exists_run (Sys.step linuxPlatform) check
    (Sys.init ⟨.unknown, 0, fun _ => 0, [], []⟩)
    [.pseudo env, .pseudo env, .start true (.callVHAsync 1), .caller true, .caller true,
      .caller true, .caller true, .caller true, .caller true, .pseudo env, .pseudo env,
      .pseudo env, .start true (.callWaitResult 0), .caller true, .caller true]
    (fun s => s.delivered.length == 1) hcheck (by decide)
  exact ⟨s, hrun, requests_conserved _ _ hrun, by simpa using hs⟩

end Veo
