-- SUMMARY: Failures while a command is handled: when they become completions, and when an exception leaves the event loop.
import Veo.Handlers.Failures
import Veo.ThreadContext.Shutdown

/-!
# Failures of commands

A handler that returns a non-zero value makes the event loop complete its command with the
status it has set and drain the request queue. A handler that throws is not caught by the event
loop: the exception ends the pseudo thread with the command in its hands.
-/

namespace Veo

variable {T : Type}

/-! ## Exceptions that leave the event loop -/

/-- The step runs a command whose handler throws. -/
def Escapes (P : Platform) (s : Sys T) : Act T → Prop
  | .pseudo env => s.pseudo = .run ∧ ∃ c f what errno, s.command = some c ∧ c.kind = .handler f ∧
      f.exec P env s.thread = .error (.thrown what errno)
  | _ => False

/-- The condition on the steps of the pseudo thread: no command fails in a way that its handler
    does not report, and nobody is about to push when the drain finds the queue empty. -/
def Contained (P : Platform) (s : Sys T) : Act T → Prop
  | .pseudo env =>
    (s.pseudo = .run → ∀ c f, s.command = some c → c.kind = .handler f →
      ¬ f.Unreported P env s.thread) ∧
    (s.pseudo = .drain → s.comq.request.queue = [] → ∀ t c k, s.pc t ≠ .push c k)
  | _ => True

theorem not_escapes {P : Platform} {s : Sys T} {a : Act T} (h : Contained P s a) :
    ¬ Escapes P s a := by
  cases a with
  | pseudo env =>
      rintro ⟨hpc, c, f, what, errno, hcmd, hkind, hexec⟩
      exact h.1 hpc c f hcmd hkind (exec_thrown_iff.mp ⟨what, errno, hexec⟩).unreported
  | start t op => exact id
  | caller t => exact id

/-! ## Failures that become completions -/

/-- The command `a` has been completed with the result `r`: it is in the completion queue, or
    was taken. -/
def Sys.CompletedAs (s : Sys T) (a : Ticket T) (r : CmdResult) : Prop :=
  (∃ c ∈ s.comq.completion.queue, c.toTicket = a ∧ c.result = some r) ∨
    ∃ d ∈ s.delivered, d.command.toTicket = a ∧ d.command.result = some r

theorem Sys.completedAs_iff {s : Sys T} {a : Ticket T} {r : CmdResult} :
    s.CompletedAs a r ↔ (a, some r) ∈ s.pipeline.finished ++ s.pipeline.delivered := by
  simp [CompletedAs, Sys.pipeline]

/-- The phases of the failure sequence in which the command that failed is not pushed yet. -/
def Pseudo.failed : Pseudo → Bool
  | .failState | .failClose | .failPush => true
  | _ => false

/-- The command that was run last has failed with the result `r`. -/
def Sys.LastFailed (s : Sys T) (a : Ticket T) (r : CmdResult) : Prop :=
  s.ran.getLast? = some (a, r) ∧ r.status ≠ .ok

/-- The failure sequence of the event loop. -/
structure Sys.FailOk (s : Sys T) : Prop where
  /-- The command that failed is in hand until it is pushed. -/
  held : s.pseudo.failed = true → ∃ c r, s.command = some c ∧ c.result = some r ∧
    s.LastFailed c.toTicket r
  /-- After that the queue is closed, and the command is completed. -/
  pushed : s.comq.request.status = .closed → s.pseudo ≠ .failPush →
    ∃ a r, s.LastFailed a r ∧ s.CompletedAs a r
  draining : s.pseudo = .drainPush → s.command.isSome = true
  closed : s.comq.request.status = .closed → s.pseudo.closing = true ∨ s.pseudo = .returned
  shut : s.pseudo = .returned → s.comq.request.status = .closed → s.Sealed

variable {P : Platform} {s s' : Sys T} {a : Act T}

/-- A completed command stays completed. -/
theorem Step.completedAs [DecidableEq T] (h : Step P s a s') (hwf : s.Wf) {b : Ticket T}
    {r : CmdResult} (hb : s.CompletedAs b r) : s'.CompletedAs b r := by
  rw [Sys.completedAs_iff] at hb ⊢
  rcases h.pipeline hwf with heq | hpipe
  · exact heq ▸ hb
  · exact hpipe.done hb

theorem Sys.FailOk.of_caller [DecidableEq T] (h : Step P s a s') (ha : ∀ env, a ≠ .pseudo env)
    (hwf : s.Wf) (hs : s.FailOk) : s'.FailOk := by
  have hframe := h.pseudoFrame ha
  have hran := h.ran_of_caller ha
  constructor
  case held =>
    intro hp
    rw [hframe.pseudo] at hp
    rw [hframe.command]
    unfold Sys.LastFailed
    rw [hran]
    exact hs.held hp
  case pushed =>
    intro hclosed hne
    rw [hframe.status] at hclosed
    rw [hframe.pseudo] at hne
    obtain ⟨b, r, hlast, hdone⟩ := hs.pushed hclosed hne
    refine ⟨b, r, ?_, h.completedAs hwf hdone⟩
    unfold Sys.LastFailed
    rwa [hran]
  case draining => rw [hframe.pseudo, hframe.command]; exact hs.draining
  case closed => rw [hframe.status, hframe.pseudo]; exact hs.closed
  case shut =>
    intro hp hclosed
    rw [hframe.pseudo] at hp
    rw [hframe.status] at hclosed
    exact h.isSealed (hs.shut hp hclosed)

/-- While the queue is open only the phase of the failure sequence matters. -/
theorem Sys.FailOk.of_ready (hready : s.comq.request.status ≠ .closed)
    (hfailed : s.pseudo.failed = false) (hdrain : s.pseudo ≠ .drainPush) : s.FailOk where
  held := fun h => by simp [hfailed] at h
  pushed := fun h => absurd h hready
  draining := fun h => absurd h hdrain
  closed := fun h => absurd h hready
  shut := fun _ h => absurd h hready

/-- Before the failure sequence closes the queue, and after the other ways out of the loop, it
    is open. -/
theorem Sys.FailOk.ready (hs : s.FailOk) (hclosing : s.pseudo.closing = false)
    (hret : s.pseudo ≠ .returned) : s.comq.request.status ≠ .closed := by
  intro hclosed
  rcases hs.closed hclosed with h | h
  · simp [hclosing] at h
  · exact hret h

variable [DecidableEq T]

/-- The steps of the pseudo thread. -/
theorem Step.failOk_pseudo {env : Env} (h : Step P s (.pseudo env) s') (hwf : s.Wf) (hs : s.FailOk)
    (hg : Contained P s (.pseudo env)) : s'.FailOk := by
  have hdone {b : Ticket T} {r : CmdResult} (hb : s.CompletedAs b r) : s'.CompletedAs b r :=
    h.completedAs hwf hb
  cases h with
  | startBlock env r v th hpc hexec hstatus hcollect
  | startFail env r hpc hexec hstatus
  | startExit env hpc
  | testBlocked env hpc hblocked
  | testReturned env hpc hblocked
  | runClose env c hpc hcmd hkind =>
      have hready := hs.ready (by rw [hpc]; rfl) (by simp [hpc])
      exact .of_ready hready rfl (by simp)
  | abort env hpc =>
      have hready : s.comq.request.status ≠ .closed := by
        rcases hpc with hpc | hpc
        · exact hs.ready (by rw [hpc]; rfl) (by simp [hpc])
        · exact hs.ready (by rw [hpc]; rfl) (by simp [hpc])
      exact .of_ready hready rfl (by simp)
  | pop env c q hpc hpop =>
      obtain ⟨-, hstatus, -⟩ := CommQueue.popRequest_eq_some hpop
      have hready := hs.ready (by rw [hpc]; rfl) (by simp [hpc])
      exact .of_ready (hstatus ▸ hready) rfl (by simp)
  | run env c f o hpc hcmd hkind hexec =>
      have hready := hs.ready (by rw [hpc]; rfl) (by simp [hpc])
      by_cases hrv : o.rv = 0
      · exact .of_ready hready (by simp [hrv, Pseudo.failed]) (by simp [hrv])
      · refine ⟨fun _ => ⟨_, o.result, rfl, rfl, ?_⟩, fun h => absurd h hready, by simp [hrv],
          fun h => absurd h hready, fun _ h => absurd h hready⟩
        exact ⟨by simp, exec_failed_status hexec hrv⟩
  | complete env c next hpc hcmd =>
      rcases hpc.phases with ⟨hp, rfl⟩ | ⟨hp, rfl⟩ | ⟨hp, rfl⟩ | ⟨hp, rfl⟩
      · have hready := hs.ready (by rw [hp]; rfl) (by simp [hp])
        exact .of_ready hready rfl (by simp)
      · -- the command that failed is pushed
        obtain ⟨d, r, hd, hr, hlast⟩ := hs.held (by rw [hp]; rfl)
        cases hcmd.symm.trans hd
        refine ⟨by simp [Pseudo.failed], fun _ _ => ⟨c.toTicket, r, hlast, .inl ⟨c, ?_, rfl, hr⟩⟩,
          by simp, fun _ => .inl rfl, by simp⟩
        simp
      · refine ⟨by simp [Pseudo.failed], fun hclosed _ => ?_, by simp, fun _ => .inl rfl, by simp⟩
        obtain ⟨b, r, hlast, hb⟩ := hs.pushed hclosed (by simp [hp])
        exact ⟨b, r, hlast, hdone hb⟩
      · have hready := hs.ready (by rw [hp]; rfl) (by simp [hp])
        exact .of_ready hready rfl (by simp)
  | failState env hpc =>
      have hready := hs.ready (by rw [hpc]; rfl) (by simp [hpc])
      exact ⟨fun _ => hs.held (by rw [hpc]; rfl), fun h => absurd h hready, by simp,
        fun h => absurd h hready, fun _ h => absurd h hready⟩
  | failClose env hpc =>
      exact ⟨fun _ => hs.held (by rw [hpc]; rfl), fun _ h => absurd rfl h, by simp,
        fun _ => .inl rfl, by simp⟩
  | drainPop env c q hpc hpop =>
      obtain ⟨-, hstatus, -⟩ := CommQueue.popRequest_eq_some hpop
      refine ⟨by simp [Pseudo.failed], fun hclosed _ => ?_, fun _ => rfl, fun _ => .inl rfl, by simp⟩
      obtain ⟨b, r, hlast, hb⟩ := hs.pushed (hstatus ▸ hclosed) (by simp [hpc])
      exact ⟨b, r, hlast, hdone hb⟩
  | drainEmpty env hpc hempty =>
      refine ⟨by simp [Pseudo.failed], fun hclosed _ => ?_, by simp, fun _ => .inr rfl,
        fun _ hclosed => ⟨rfl, hclosed, hempty, hg.2 hpc hempty⟩⟩
      exact hs.pushed hclosed (by simp [hpc])

theorem Step.failOk (h : Step P s a s') (hwf : s.Wf) (hs : s.FailOk) (hg : Contained P s a) :
    s'.FailOk := by
  cases a with
  | pseudo env => exact h.failOk_pseudo hwf hs hg
  | start t op => exact .of_caller h (by simp) hwf hs
  | caller t => exact .of_caller h (by simp) hwf hs

/-- Every step of the failure sequence is possible. -/
theorem Sys.FailOk.progress (hs : s.FailOk)
    (hp : s.pseudo.failed = true ∨ s.pseudo = .drain ∨ s.pseudo = .drainPush) (env : Env) :
    (s.step P (.pseudo env)).isSome = true := by
  have hheld := hs.held
  have hdrain := hs.draining
  cases hpc : s.pseudo with
  | failState | failClose => simp [Sys.step, Sys.pseudoStep, hpc]
  | failPush =>
      obtain ⟨c, r, hcmd, -⟩ := hheld (by rw [hpc]; rfl)
      simp [Sys.step, Sys.pseudoStep, hpc, Sys.complete, hcmd]
  | drainPush => simpa [Sys.step, Sys.pseudoStep, hpc, Sys.complete] using hdrain hpc
  | drain =>
      simp only [Sys.step, Sys.pseudoStep, hpc]
      split <;> rfl
  | _ => simp [hpc, Pseudo.failed] at hp

/-- A completed command has its own result, or was drained. -/
theorem Reachable.completedAs (h : Reachable P s) {b : Ticket T} (hb : s.Completed b) :
    ∃ r, s.CompletedAs b r ∧ ((b, r) ∈ s.ran ∨ r = drainResult) := by
  have hpipe := h.pipeline
  have hmem : ∃ r, (b, r) ∈ s.pipeline.finished ++ s.pipeline.delivered := by
    rcases hb with ⟨c, hc, rfl⟩ | ⟨d, hd, rfl⟩
    · exact ⟨c.result, List.mem_append_left _ (List.mem_map.mpr ⟨c, hc, rfl⟩)⟩
    · exact ⟨d.command.result, List.mem_append_right _ (List.mem_map.mpr ⟨d, hd, rfl⟩)⟩
  obtain ⟨x, hx⟩ := hmem
  obtain ⟨r, rfl⟩ := Option.isSome_iff_exists.mp (hpipe.result b x hx)
  refine ⟨r, Sys.completedAs_iff.mpr hx, ?_⟩
  have hsettled : (b, some r) ∈ s.pipeline.settled := by
    rw [Pipeline.settled, List.append_assoc]
    exact List.mem_append_right _ hx
  exact (hpipe.origin b r hsettled).imp_right And.left

/-- In every run whose steps meet the condition the failure sequence is as described. -/
theorem failOk_of_run {t : VeThread}
    (h : Transition.Run (Sys.step P) (Contained P) (Sys.init t) s) : s.FailOk := by
  refine Transition.Run.invariant_of (B := Sys.Wf) (I := Sys.FailOk) ?_ ?_ h (Sys.init_wf t)
    (.of_ready (by simp [Sys.init, CommQueue.init]) rfl (by simp [Sys.init]))
  · intro s a s' hwf hst
    exact (Sys.step_cases hst).wf hwf
  · intro s a s' hwf hs hg hst
    exact (Sys.step_cases hst).failOk hwf hs hg

/-! ## The command that has failed -/

/-- The command `b` was run last, with the result `r`, and the failure sequence has begun. -/
structure Sys.FailedWith (b : Ticket T) (r : CmdResult) (s : Sys T) : Prop where
  last : s.ran.getLast? = some (b, r)
  phase : s.pseudo = .failState ∨ s.pseudo = .failClose ∨
    (s.comq.request.status = .closed ∧ (s.pseudo.closing = true ∨ s.pseudo = .returned))

/-- Nothing is run after a command that has failed. -/
theorem Step.failedWith {b : Ticket T} {r : CmdResult} (h : Step P s a s')
    (hs : s.FailedWith b r) : s'.FailedWith b r := by
  by_cases ha : ∃ env, a = .pseudo env
  case neg =>
    have hcaller : ∀ env, a ≠ .pseudo env := fun env heq => ha ⟨env, heq⟩
    have hframe := h.pseudoFrame hcaller
    refine ⟨(h.ran_of_caller hcaller).symm ▸ hs.last, ?_⟩
    rw [hframe.pseudo, hframe.status]
    exact hs.phase
  case pos =>
    obtain ⟨env, rfl⟩ := ha
    obtain ⟨hlast, hphase⟩ := hs
    cases h with
    | failState env hpc => exact ⟨hlast, .inr (.inl rfl)⟩
    | failClose env hpc => exact ⟨hlast, .inr (.inr ⟨rfl, .inl rfl⟩)⟩
    | complete env c next hpc hcmd =>
        refine ⟨hlast, .inr (.inr ?_)⟩
        rcases hpc.phases with ⟨hp, -⟩ | ⟨hp, rfl⟩ | ⟨hp, rfl⟩ | ⟨hp, -⟩
        all_goals simp_all [Pseudo.closing]
    | drainPop env c q hpc hpop =>
        obtain ⟨-, hstatus, -⟩ := CommQueue.popRequest_eq_some hpop
        simp [hpc] at hphase
        exact ⟨hlast, .inr (.inr ⟨hstatus ▸ hphase.1, .inl rfl⟩)⟩
    | drainEmpty env hpc hempty =>
        simp [hpc] at hphase
        exact ⟨hlast, .inr (.inr ⟨hphase.1, .inr rfl⟩)⟩
    | startBlock _ _ _ _ hpc | startFail _ _ hpc | startExit _ hpc | testBlocked _ hpc
    | testReturned _ hpc | pop _ _ _ hpc | runClose _ _ hpc | run _ _ _ _ hpc =>
        simp [hpc, Pseudo.closing] at hphase
    | abort env hpc => rcases hpc with hpc | hpc <;> simp [hpc, Pseudo.closing] at hphase

/-- What becomes of the command `b` that has failed, and of the requests behind it. -/
structure Sys.FailureCompletes (P : Platform) (b : Ticket T) (s : Sys T) : Prop where
  /-- The command has a status that is not OK, in the hands of the failure sequence or among the
      completions. -/
  reported : ∃ r, r.status ≠ .ok ∧
    ((∃ c, s.command = some c ∧ c.toTicket = b ∧ c.result = some r) ∨ s.CompletedAs b r)
  /-- The failure sequence never blocks. -/
  progress : s.pseudo = .returned ∨ ∀ env, (s.step P (.pseudo env)).isSome = true
  /-- At its end the command has been completed. -/
  completed : s.pseudo = .returned → ∃ r, r.status ≠ .ok ∧ s.CompletedAs b r
  /-- The queue is then closed and empty, and every accepted request that was not run is completed
      as UNFINISHED. -/
  remaining : s.pseudo = .returned → s.comq.request.status = .closed ∧ s.comq.request.queue = [] ∧
    ∀ a ∈ s.accepted, a ∉ s.ran.map Prod.fst → s.CompletedAs a ⟨0, .unfinished⟩

theorem Sys.FailOk.failureCompletes (hok : s.FailOk) (hreach : Reachable P s) {b : Ticket T}
    {r : CmdResult} (hs : s.FailedWith b r) : s.FailureCompletes P b := by
  obtain ⟨hlast, hphase⟩ := hs
  have hdone (hclosed : s.comq.request.status = .closed) (hne : s.pseudo ≠ .failPush) :
      ∃ r, r.status ≠ .ok ∧ s.CompletedAs b r := by
    obtain ⟨b', r', ⟨hlast', hstatus⟩, hb⟩ := hok.pushed hclosed hne
    cases hlast.symm.trans hlast'
    exact ⟨r, hstatus, hb⟩
  have hreturned (hret : s.pseudo = .returned) : s.comq.request.status = .closed := by
    simp [hret] at hphase
    exact hphase
  constructor
  case reported =>
    by_cases hfailed : s.pseudo.failed = true
    · obtain ⟨c, r', hcmd, hr, hlast', hstatus⟩ := hok.held hfailed
      cases hlast.symm.trans hlast'
      exact ⟨r, hstatus, .inl ⟨c, hcmd, rfl, hr⟩⟩
    · rcases hphase with hpc | hpc | ⟨hclosed, -⟩
      · simp [hpc, Pseudo.failed] at hfailed
      · simp [hpc, Pseudo.failed] at hfailed
      · obtain ⟨r', hstatus, hb⟩ := hdone hclosed fun hpc => hfailed (by rw [hpc]; rfl)
        exact ⟨r', hstatus, .inr hb⟩
  case progress =>
    cases hpc : s.pseudo with
    | returned => exact .inl rfl
    | failState | failClose | failPush => exact .inr (hok.progress (.inl (by rw [hpc]; rfl)))
    | drain => exact .inr (hok.progress (.inr (.inl hpc)))
    | drainPush => exact .inr (hok.progress (.inr (.inr hpc)))
    | _ => simp [hpc, Pseudo.closing] at hphase
  case completed => exact fun hret => hdone (hreturned hret) (by simp [hret])
  case remaining =>
    intro hret
    have hclosed := hreturned hret
    have hsealed := hok.shut hret hclosed
    refine ⟨hclosed, hsealed.empty, fun d hd hnot => ?_⟩
    obtain ⟨r', hcompleted, hran | rfl⟩ :=
      hreach.completedAs ((hsealed.drained hreach).completed d hd)
    · exact absurd (List.mem_map.mpr ⟨_, hran, rfl⟩) hnot
    · exact hcompleted

/-- In every run whose steps meet the condition, no exception leaves the event loop; and when a
    command that fails is run, in every run that goes on from there the command is completed with
    a status that is not OK, and the accepted requests behind it as UNFINISHED. -/
theorem failure_becomes_completion (t : VeThread)
    (h : Transition.Run (Sys.step P) (Contained P) (Sys.init t) s) :
    Transition.Run (Sys.step P) (fun s a => ¬ Escapes P s a) (Sys.init t) s ∧
      ∀ env c f s₁ s₂, s.pseudo = .run → s.command = some c → c.kind = .handler f →
        f.Fails P env s.thread → Contained P s (.pseudo env) →
        s.step P (.pseudo env) = some s₁ → Transition.Run (Sys.step P) (Contained P) s₁ s₂ →
        s₂.FailureCompletes P c.toTicket := by
  refine ⟨h.mono fun s a hg => not_escapes hg, ?_⟩
  intro env c f s₁ s₂ hpc hcmd hkind hfails hg hstep hrun
  have hall := (Transition.Run.tail h hg hstep).trans hrun
  have hunreported := hg.1 hpc c f hcmd hkind
  -- the step is possible, so the driver has results to the end
  have hexec : ∃ o, f.exec P env s.thread = .ok o ∧ o.rv ≠ 0 ∧ o.result.status ≠ .ok := by
    refine (exec_reports_iff hfails fun u hwait => ?_).mpr hunreported
    simp only [Sys.step, Sys.pseudoStep, hpc, hcmd, Option.bind_some, Sys.runCommand, hkind,
      hwait] at hstep
    cases hstep
  obtain ⟨o, ho, hrv, -⟩ := hexec
  have hfailed : s₁.FailedWith c.toTicket o.result := by
    simp only [Sys.step, Sys.pseudoStep, hpc, hcmd, Option.bind_some, Sys.runCommand, hkind, ho,
      Option.some.injEq] at hstep
    subst hstep
    exact ⟨by simp, .inl (if_pos hrv)⟩
  have hlast : s₂.FailedWith c.toTicket o.result :=
    hrun.invariant (fun s a s' hs _ hst => (Sys.step_cases hst).failedWith hs) hfailed
  exact (failOk_of_run hall).failureCompletes ⟨t, hall.reaches⟩ hlast

/-- A check that implies the condition: a command that is run is a transfer or a VH call, and the
    two callers do not build a command during the drain. -/
def containedCheck (s : Sys Bool) : Act Bool → Bool
  | .pseudo _ =>
    (s.pseudo != .run || s.command.all fun c =>
      match c.kind with
      | .handler (.callAsync _) | .handler (.callOpenContext _) | .handler (.exitProc _) => false
      | _ => true) &&
    (s.pseudo != .drain || ((s.pc true).building.isNone && (s.pc false).building.isNone))
  | _ => true

theorem contained_of_check {s : Sys Bool} {a : Act Bool} (h : containedCheck s a = true) :
    Contained P s a := by
  cases a with
  | pseudo env =>
      simp only [containedCheck, Bool.and_eq_true] at h
      obtain ⟨hkind, hdrain⟩ := h
      refine ⟨fun hpc c f hcmd hf => ?_, fun hpc _ t c k hpush => ?_⟩
      · cases f with
        | callAsync addr | exitProc addr | callOpenContext addr => simp [hpc, hcmd, hf] at hkind
        | callVHAsync a | asyncReadMem d s n | asyncWriteMem d s n => exact id
      · have hbuild : (s.pc t).building = some c := by rw [hpush]; rfl
        cases t <;> simp [hpc, hbuild] at hdrain
  | start t op => trivial
  | caller t => trivial

/-- A read transfer fails with a VH call behind it. -/
theorem failure_becomes_completion_read :
    ∃ s₁ s₂ : Sys Bool, s₁.pseudo = .failState ∧ s₁.accepted.length = 2 ∧ s₂.pseudo = .returned ∧
      ∃ c, s₁.command = some c ∧ s₂.FailureCompletes linuxPlatform c.toTicket := by
  obtain ⟨s, hrun, hs⟩ := Transition.exists_run (Sys.step linuxPlatform) containedCheck
    (Sys.init newThread)
    [.pseudo failingEnv, .pseudo failingEnv, .start true (.asyncReadMem 0x100 0x1000 8),
      .caller true, .caller true, .caller true, .caller true, .caller true,
      .start false (.callVHAsync 1), .caller false, .caller false, .caller false, .caller false,
      .caller false, .pseudo failingEnv]
    (fun s => s.pseudo == .run &&
      (s.command.any fun c => c.kind == .handler (.asyncReadMem 0x100 0x1000 8) &&
        containedCheck s (.pseudo failingEnv) &&
        (s.step linuxPlatform (.pseudo failingEnv)).any fun s₁ =>
          s₁.pseudo == .failState && s₁.accepted.length == 2 &&
          (s₁.command.any fun d => d.toTicket == c.toTicket) &&
          (Transition.runList (Sys.step linuxPlatform) containedCheck s₁
            (List.replicate 6 (.pseudo failingEnv))).any fun s₂ => s₂.pseudo == .returned))
    (fun _ _ h => contained_of_check h) (by decide)
  simp only [Bool.and_eq_true, beq_iff_eq, Option.any_eq_true] at hs
  obtain ⟨hpc, c, hcmd, ⟨hkind, hcheck⟩, s₁, hstep, ⟨⟨hfail, hacc⟩, d, hd, hticket⟩, s₂, hrest,
    hret⟩ := hs
  have hfails : (Handler.asyncReadMem 0x100 0x1000 8).Fails linuxPlatform failingEnv s.thread := by
    simp only [Handler.Fails]
    decide
  refine ⟨s₁, s₂, hfail, hacc, hret, d, hd, hticket ▸ ?_⟩
  exact (failure_becomes_completion newThread hrun).2 failingEnv c _ s₁ s₂ hpc hcmd hkind hfails
    (contained_of_check hcheck) hstep
    (Transition.run_of_runList (fun _ _ h => contained_of_check h) hrest)

/-- A driver whose wait for an exception fails with the error EIO. -/
def deafEnv : Env := Env.plain [] [.failed 5]

/-- The wait for the VE function of a call fails: the exception leaves the event loop, and the
    accepted command is never completed, because the pseudo thread takes no further step. -/
theorem exception_leaves_eventLoop :
    ∃ s s' : Sys Bool, Reachable linuxPlatform s ∧ Escapes linuxPlatform s (.pseudo deafEnv) ∧
      s.step linuxPlatform (.pseudo deafEnv) = some s' ∧ s'.accepted.length = 1 ∧
      s'.comq.completion.queue = [] ∧ s'.delivered.length = 0 ∧
      ∀ env, s'.step linuxPlatform (.pseudo env) = none := by
  obtain ⟨s, hreach, hs⟩ := Transition.exists_reaches (Sys.step linuxPlatform)
    (Sys.init newThread)
    [.pseudo failingEnv, .pseudo failingEnv, .start true (.callAsync 0x4000),
      .caller true, .caller true, .caller true, .caller true, .caller true, .pseudo failingEnv]
    (fun s => s.pseudo == .run &&
      (s.command.any fun c => c.kind == .handler (.callAsync 0x4000)) &&
      ((Handler.exec linuxPlatform (.callAsync 0x4000) deafEnv s.thread) matches
        .error (.thrown _ _)) &&
      (s.step linuxPlatform (.pseudo deafEnv)).any fun s' =>
        s'.pseudo == .aborted && s'.accepted.length == 1 && s'.comq.completion.queue == [] &&
          s'.delivered.length == 0)
    (by decide +kernel)
  simp only [Bool.and_eq_true, beq_iff_eq, Option.any_eq_true] at hs
  obtain ⟨⟨⟨hpc, c, hcmd, hkind⟩, hthrown⟩, s', hstep, ⟨⟨haborted, hacc⟩, hempty⟩, hdel⟩ := hs
  refine ⟨s, s', ⟨_, hreach⟩, ⟨hpc, c, .callAsync 0x4000, ?_⟩, hstep, hacc, hempty, hdel,
    fun env => ?_⟩
  · split at hthrown
    · rename_i what errno hexec
      exact ⟨what, errno, hcmd, hkind, hexec⟩
    · cases hthrown
  · simp [Sys.step, Sys.pseudoStep, haborted]

end Veo
