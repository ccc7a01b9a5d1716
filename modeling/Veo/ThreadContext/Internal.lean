-- SUMMARY: Calls that the library makes on its worker: their commands do not outlive them.
import Veo.ThreadContext.Shutdown
import Veo.ThreadContext.Ids

/-!
# Internal calls

`doOnContext` and `openContext` pass arguments on their own stack, which the command captures
by reference. Both collect the result of the command before they return. While no ID is issued
twice, the command has then left the request queue and the hands of the pseudo thread.
-/

namespace Veo

variable {T : Type}

/-- The calls that the library makes on its worker. -/
def Op.internal : Op → Bool
  | .doOnContext .. | .openContext _ | .readMem .. | .writeMem .. | .exitProc _ => true
  | _ => false

/-- Only internal calls are started. -/
def Internal (_ : Sys T) : Act T → Prop
  | .start _ op => op.internal = true
  | _ => True

/-- The `n`-th call of the caller `t` has returned or thrown. -/
def Sys.Returned (s : Sys T) (t : T) (n : Nat) : Prop :=
  n < s.calls t ∨ (n = s.calls t ∧ (s.pc t = .idle ∨ ∃ r, s.pc t = .done r))

/-- The command of the call is neither in the request queue nor being executed. -/
def Sys.Settled (s : Sys T) (t : T) (n : Nat) : Prop :=
  (∀ c ∈ s.comq.request.queue, c.owner ≠ (t, n)) ∧ ∀ c, s.command = some c → c.owner ≠ (t, n)

/-! ## Positions of internal callers -/

/-- The callers that collect the result of their request. -/
def After.internal : After → Bool
  | .collect _ | .exit => true
  | _ => false

/-- The requests of internal calls. -/
def Kind.internal : Kind → Bool
  | .handler (.callVHAsync _) | .close => false
  | _ => true

/-- The positions that internal calls go through. -/
def Pc.internal : Pc T → Bool
  | .test f k => (Kind.handler f).internal && k.internal
  | .issue kind k | .insert _ kind k => kind.internal && k.internal
  | .load c k | .push c k => c.kind.internal && k.internal
  | .peekFind _ | .peekSearch _ | .closeTest | .closeWait _ | .delete => false
  | _ => true

/-- The ID that a caller waits for. -/
def Pc.awaits : Pc T → Option (BitVec 64)
  | .waitErase id _ | .waitFor id _ | .exitWait id => some id
  | _ => none

/-- The caller has not taken the ID out of `rem_reqid` yet. -/
def Pc.erases : Pc T → Bool
  | .waitErase .. => true
  | _ => false

theorem Op.start_internal {op : Op} (h : op.internal = true) : (op.start : Pc T).internal = true := by
  cases op with
  | doOnContext | openContext | readMem | writeMem | exitProc => rfl
  | _ => cases h

theorem Op.start_awaits {op : Op} (h : op.internal = true) :
    (op.start : Pc T).awaits = none := by
  cases op with
  | doOnContext | openContext | readMem | writeMem | exitProc => rfl
  | _ => cases h

theorem After.next_internal {k : After} (h : k.internal = true) (id : BitVec 64) :
    (k.next id : Pc T).internal = true := by
  cases k with
  | collect | exit => rfl
  | _ => cases h

theorem After.next_awaits {k : After} (h : k.internal = true) (id : BitVec 64) :
    (k.next id : Pc T).awaits = some id := by
  cases k with
  | collect | exit => rfl
  | _ => cases h

/-- An internal call learns that its request was rejected. -/
theorem Kind.rejectedId_of_internal {kind : Kind} (h : kind.internal = true) (id : BitVec 64) :
    kind.rejectedId id = requestIdInvalid := by
  cases kind with
  | close => rfl
  | handler f =>
      cases f with
      | callVHAsync => cases h
      | _ => rfl

section Moves
variable {s : Sys T} {pc pc' : Pc T}

theorem Moves.internal (h : Moves s pc pc') (hpc : pc.internal = true) : pc'.internal = true := by
  cases h with
  | refused f k h => exact After.next_internal (Bool.and_eq_true_iff.mp hpc).2 _
  | rejected c k h => exact After.next_internal (Bool.and_eq_true_iff.mp hpc).2 _
  | tested f k h => exact hpc
  | ready c k h => exact hpc
  | closeSkipped h => cases hpc
  | closeTested h => cases hpc
  | _ => rfl

/-- A caller that waits without having pushed its request waits for the invalid ID. -/
theorem Moves.awaits (h : Moves s pc pc') (hpc : pc.internal = true) {id : BitVec 64}
    (hid : pc'.awaits = some id) : id = requestIdInvalid := by
  cases h with
  | refused f k h =>
      rw [After.next_awaits (Bool.and_eq_true_iff.mp hpc).2] at hid
      exact (Option.some.inj hid).symm
  | rejected c k h =>
      obtain ⟨hkind, hk⟩ := Bool.and_eq_true_iff.mp hpc
      rw [After.next_awaits hk, Kind.rejectedId_of_internal hkind] at hid
      exact (Option.some.inj hid).symm
  | _ => cases hid

end Moves

/-! ## Commands belong to calls that have not returned -/

variable {P : Platform} {s s' : Sys T} {a : Act T}

/-- Every command in the queues or in hand belongs to the current call of its caller, which
    waits for it, and finds its ID in `rem_reqid`. -/
structure Sys.InternalOk (s : Sys T) : Prop where
  inside : ∀ t, (s.pc t).internal = true
  awaited : ∀ b ∈ s.pipeline.live,
    b.call = s.calls b.caller ∧ (s.pc b.caller).awaits = some b.msgid
  registered : ∀ b ∈ s.pipeline.live, (s.pc b.caller).erases = true → b.msgid ∈ s.remReqid
  built : ∀ t c, (s.pc t).building = some c → c.msgid ∈ s.remReqid
  own : ∀ t id, (s.pc t).awaits = some id →
    id = requestIdInvalid ∨ ∃ b ∈ s.accepted, b.caller = t ∧ b.msgid = id

/-- A caller that waits for nothing has no command in the queues or in hand. -/
theorem Sys.InternalOk.not_live (hs : s.InternalOk) {t : T} (hpc : (s.pc t).awaits = none) :
    ∀ b ∈ s.pipeline.live, b.caller ≠ t := by
  rintro b hb rfl
  cases hpc.symm.trans (hs.awaited b hb).2

/-- No command in the queues or in hand belongs to a call that has returned. -/
theorem Sys.InternalOk.settled (hs : s.InternalOk) {t : T} {n : Nat} (hret : s.Returned t n) :
    s.Settled t n := by
  have hlive (b : Ticket T) (hb : b ∈ s.pipeline.live) : b.owner ≠ (t, n) := by
    intro heq
    obtain ⟨rfl, rfl⟩ := Prod.mk.inj heq
    obtain ⟨hcall, hawaits⟩ := hs.awaited b hb
    rcases hret with hlt | ⟨-, hidle | ⟨r, hdone⟩⟩
    · exact absurd hcall (Nat.ne_of_lt hlt)
    · rw [hidle] at hawaits
      cases hawaits
    · rw [hdone] at hawaits
      cases hawaits
  exact ⟨fun c hc => hlive _ (Sys.mem_live (.inl hc)),
    fun c hc => hlive _ (Sys.mem_live (.inr (.inl hc)))⟩

variable [DecidableEq T]

/-- A command gets into the queues by being accepted. -/
theorem Step.live (h : Step P s a s') (hwf : s.Wf) {b : Ticket T} (hb : b ∈ s'.pipeline.live) :
    b ∈ s.pipeline.live ∨ s'.accepted = s.accepted ++ [b] := by
  rcases h.pipeline hwf with heq | hstep
  · exact .inl (heq ▸ hb)
  · exact hstep.live hb

theorem Step.live_of_accepted (h : Step P s a s') (hwf : s.Wf) (hacc : s'.accepted = s.accepted)
    {b : Ticket T} (hb : b ∈ s'.pipeline.live) : b ∈ s.pipeline.live := by
  rcases h.live hwf hb with hold | hnew
  · exact hold
  · rw [hacc] at hnew
    simp at hnew

/-- A step of the caller `t` to the position `pc`. The other callers keep their commands and
    their IDs; what is said about `t` has to be shown. -/
theorem Sys.InternalOk.update {t : T} {pc : Pc T} (hs : s.InternalOk) (hr : Reachable P s)
    (hleft : s.IdsLeft) (hpc : s'.pc = Function.update s.pc t pc)
    (hcalls : ∀ u, u ≠ t → s'.calls u = s.calls u)
    (hlive : ∀ b ∈ s'.pipeline.live, b.caller ≠ t → b ∈ s.pipeline.live)
    (hrem : ∀ id ∈ s.remReqid,
      id ∈ s'.remReqid ∨ ∃ b ∈ s.accepted, b.caller = t ∧ b.msgid = id)
    (hacc : s.accepted ⊆ s'.accepted) (hinside : pc.internal = true)
    (hawaited : ∀ b ∈ s'.pipeline.live, b.caller = t →
      b.call = s'.calls t ∧ pc.awaits = some b.msgid ∧ (pc.erases = true → b.msgid ∈ s'.remReqid))
    (hbuilt : ∀ c, pc.building = some c → c.msgid ∈ s'.remReqid)
    (hown : ∀ id, pc.awaits = some id →
      id = requestIdInvalid ∨ ∃ b ∈ s'.accepted, b.caller = t ∧ b.msgid = id) : s'.InternalOk := by
  have hids := hr.idsOk hleft
  constructor
  case inside =>
    intro u
    rw [hpc, Function.update_apply]
    split
    · exact hinside
    · exact hs.inside u
  case awaited =>
    intro b hb
    by_cases ht : b.caller = t
    · obtain ⟨hcall, hid, -⟩ := hawaited b hb ht
      rw [hpc, ht, Function.update_self]
      exact ⟨hcall, hid⟩
    · rw [hpc, Function.update_of_ne ht, hcalls _ ht]
      exact hs.awaited b (hlive b hb ht)
  case registered =>
    intro b hb herases
    by_cases ht : b.caller = t
    · rw [hpc, ht, Function.update_self] at herases
      exact (hawaited b hb ht).2.2 herases
    · rw [hpc, Function.update_of_ne ht] at herases
      have hold := hlive b hb ht
      rcases hrem _ (hs.registered b hold herases) with hmem | ⟨d, hd, hcaller, hid⟩
      · exact hmem
      · -- the ID that `t` removes is the one of its own command
        have heq := hids.eq_of_msgid hd (hr.pipeline.live_accepted hold) hid
        exact absurd (heq ▸ hcaller) ht
  case built =>
    intro u c hu
    rw [hpc, Function.update_apply] at hu
    split at hu
    · exact hbuilt c hu
    · rcases hrem _ (hs.built u c hu) with hmem | ⟨d, hd, -, hid⟩
      · exact hmem
      · have hpending : (s.pc u).pending = some c.msgid := by
          cases hpu : s.pc u <;> rw [hpu] at hu <;> cases hu <;> rfl
        exact absurd hid ((hids.pending u _ hpending).2 d hd)
  case own =>
    intro u id hu
    rw [hpc, Function.update_apply] at hu
    split at hu
    · rename_i heq
      exact heq ▸ hown id hu
    · rcases hs.own u id hu with hinv | ⟨d, hd, hid⟩
      · exact .inl hinv
      · exact .inr ⟨d, hacc hd, hid⟩

/-- A step of a caller that has no command in the queues or in hand, and pushes none. -/
theorem Sys.InternalOk.quiet {t : T} {pc : Pc T} (hs : s.InternalOk) (hr : Reachable P s)
    (hleft : s.IdsLeft) (hnone : ∀ b ∈ s.pipeline.live, b.caller ≠ t)
    (hpc : s'.pc = Function.update s.pc t pc) (hcalls : ∀ u, u ≠ t → s'.calls u = s.calls u)
    (hpipe : s'.pipeline = s.pipeline) (hrem : s.remReqid ⊆ s'.remReqid)
    (hinside : pc.internal = true) (hbuilt : ∀ c, pc.building = some c → c.msgid ∈ s'.remReqid)
    (hown : ∀ id, pc.awaits = some id → id = requestIdInvalid) : s'.InternalOk := by
  refine hs.update hr hleft hpc hcalls (fun b hb _ => hpipe ▸ hb) (fun id hid => .inl (hrem hid))
    ?_ hinside (fun b hb ht => ?_) hbuilt fun id hid => .inl (hown id hid)
  · have hacc : s'.accepted = s.accepted := congrArg Pipeline.accepted hpipe
    exact fun b hb => hacc ▸ hb
  · exact absurd ht (hnone b (hpipe ▸ hb))

/-- A caller that takes a command with the ID it waits for takes its own command. -/
theorem Sys.InternalOk.take {t : T} {id : BitVec 64} {c : Command T} {q : CommQueue T} {pc : Pc T}
    {ret : Ret} (hs : s.InternalOk) (hr : Reachable P s) (hleft : s.IdsLeft)
    (hawaits : (s.pc t).awaits = some id) (hfind : s.comq.findCompletion id = some (c, q))
    (hinside : pc.internal = true) (hnone : pc.awaits = none) (hbuild : pc.building = none)
    (hs' : s' = { s with
      comq := q, delivered := s.delivered ++ [⟨t, id, c, ret⟩], pc := Function.update s.pc t pc })
    (hr' : Reachable P s') (hlive : ∀ b ∈ s'.pipeline.live, b ∈ s.pipeline.live) :
    s'.InternalOk := by
  have hids := hr.idsOk hleft
  obtain ⟨hid, -, l₁, l₂, hqueue, -⟩ := CommQueue.findCompletion_eq_some hfind
  have hc : c.toTicket ∈ s.accepted := hr.mem_accepted (.inr (.inr (by simp [hqueue])))
  have hgone (b : Ticket T) (hb : b ∈ s'.pipeline.live) : b.caller ≠ t := by
    rintro rfl
    have hmsgid := Option.some.inj (hawaits.symm.trans (hs.awaited b (hlive b hb)).2)
    have heq : b = c.toTicket :=
      hids.eq_of_msgid (hr.pipeline.live_accepted (hlive b hb)) hc (hmsgid.symm.trans hid.symm)
    refine hr'.pipeline.live_not_delivered hb ?_
    rw [hs', heq]
    simp [Sys.pipeline]
  subst hs'
  exact hs.update hr hleft rfl (fun _ _ => rfl) (fun b hb _ => hlive b hb) (fun _ h => .inl h)
    (List.Subset.refl _) hinside (fun b hb ht => absurd ht (hgone b hb)) (by simp [hbuild])
    (by simp [hnone])

/-- The steps of callers in internal calls. -/
theorem Step.internalOk_caller {t : T} (h : Step P s (.caller t) s') (hr : Reachable P s)
    (hr' : Reachable P s') (hleft : s.IdsLeft) (hs : s.InternalOk) : s'.InternalOk := by
  have hinside := hs.inside t
  have hlive (hacc : s'.accepted = s.accepted) (b : Ticket T) (hb : b ∈ s'.pipeline.live) :
      b ∈ s.pipeline.live := h.live_of_accepted hr.wf hacc hb
  have hpushed (b : Ticket T) (hb : b ∈ s'.pipeline.live) := h.live hr.wf hb
  cases h with
  | move t pc pc' hpc hm =>
      rw [hpc] at hinside
      refine hs.quiet hr hleft ?_ rfl (fun _ _ => rfl) rfl (Finset.Subset.refl _)
        (hm.internal hinside) ?_ fun id => hm.awaits hinside
      · intro b hb ht
        obtain ⟨-, hawaits⟩ := hs.awaited b hb
        have hmem := hs.registered b hb
        rw [ht, hpc] at hawaits hmem
        cases hm with
        | waitUnknown id w hid =>
            -- the ID of a command that is not finished is still there
            cases hawaits
            exact hid (hmem rfl)
        | _ => cases hawaits
      · intro c hc
        rcases hm.building with hnone | hsame
        · cases hnone.symm.trans hc
        · exact hs.built t c (by rw [hpc, ← hsame, hc])
  | issueSkip t kind k hpc hinv => exact ⟨hs.inside, hs.awaited, hs.registered, hs.built, hs.own⟩
  | issue t kind k hpc hinv =>
      rw [hpc] at hinside
      exact hs.quiet hr hleft (hs.not_live (by rw [hpc]; rfl)) rfl (fun _ _ => rfl) rfl
        (Finset.Subset.refl _) hinside (by simp [Pc.building]) (by simp [Pc.awaits])
  | insert t id kind k hpc hfree =>
      rw [hpc] at hinside
      refine hs.quiet hr hleft (hs.not_live (by rw [hpc]; rfl)) rfl (fun _ _ => rfl) rfl
        (Finset.subset_insert _ _) hinside (fun c hc => ?_) (by simp [Pc.awaits])
      cases hc
      exact Finset.mem_insert_self _ _
  | exitDone t hpc | finish t r hpc =>
      exact hs.quiet hr hleft (hs.not_live (by rw [hpc]; rfl)) rfl (fun _ _ => rfl) rfl
        (Finset.Subset.refl _) rfl (by simp [Pc.building]) (by simp [Pc.awaits])
  | push t c k hpc =>
      rw [hpc] at hinside
      obtain ⟨-, hk⟩ := Bool.and_eq_true_iff.mp hinside
      obtain ⟨hcaller, hcall, -⟩ := hr.wf.owned.built t c (by rw [hpc]; rfl)
      have hmem := hs.built t c (by rw [hpc]; rfl)
      refine hs.update hr hleft rfl (fun _ _ => rfl) ?_ (fun _ hid => .inl hid)
        (List.subset_append_left _ _) (After.next_internal hk _) ?_ (by simp) fun id hid => ?_
      · intro b hb ht
        rcases hpushed b hb with hold | hnew
        · exact hold
        · cases List.append_cancel_left hnew
          exact absurd hcaller ht
      · intro b hb ht
        rcases hpushed b hb with hold | hnew
        · exact absurd ht (hs.not_live (by rw [hpc]; rfl) b hold)
        · cases List.append_cancel_left hnew
          exact ⟨hcall, After.next_awaits hk _, fun _ => hmem⟩
      · rw [After.next_awaits hk] at hid
        exact .inr ⟨c.toTicket, by simp, hcaller, Option.some.inj hid⟩
  | waitErase t id w hpc hfree hmem =>
      have hawaits : (s.pc t).awaits = some id := by rw [hpc]; rfl
      have hown := hs.own t id hawaits
      refine hs.update hr hleft rfl (fun _ _ => rfl) (fun b hb _ => hb) (fun i hi => ?_)
        (List.Subset.refl _) rfl (fun b hb ht => ?_) (by simp [Pc.building]) fun i hi => ?_
      · by_cases heq : i = id
        · rcases hown with hinv | hmine
          · exact absurd (hinv ▸ hmem) ((hr.idsOk hleft).invalid_not_mem hleft)
          · exact .inr (heq ▸ hmine)
        · exact .inl (Finset.mem_erase.mpr ⟨heq, hi⟩)
      · obtain ⟨hcall, hid⟩ := hs.awaited b hb
        rw [ht] at hcall hid
        exact ⟨hcall, hawaits.symm.trans hid, by simp [Pc.erases]⟩
      · cases hi
        exact hown
  | waitTake t id w c q hpc hfind =>
      exact hs.take hr hleft (by rw [hpc]; rfl) hfind rfl rfl rfl rfl hr' (hlive rfl)
  | exitTake t id c q hpc hfind =>
      exact hs.take hr hleft (by rw [hpc]; rfl) hfind rfl rfl rfl rfl hr' (hlive rfl)
  | peekLock t id hpc hfree hmem
  | peekNone t id hpc hfind
  | peekTake t id c q hpc hfind hmem
  | peekLost t id c q hpc hfind hmem
  | closeTake t id c q hpc hfind
  | delete t hpc =>
      rw [hpc] at hinside
      cases hinside

theorem Step.internalOk (h : Step P s a s') (hr : Reachable P s) (hr' : Reachable P s')
    (hleft : s.IdsLeft) (hg : Internal s a) (hs : s.InternalOk) : s'.InternalOk := by
  cases a with
  | caller t => exact h.internalOk_caller hr hr' hleft hs
  | start t op =>
      cases h with
      | start t op hpc =>
          exact hs.quiet hr hleft (hs.not_live (by rw [hpc]; rfl)) rfl
            (fun u hu => Function.update_of_ne hu _ _) rfl (Finset.Subset.refl _)
            (Op.start_internal hg) (by simp) (by simp [Op.start_awaits hg])
  | pseudo env =>
      have hframe := h.callerFrame
      have hlive (b : Ticket T) (hb : b ∈ s'.pipeline.live) : b ∈ s.pipeline.live :=
        h.live_of_accepted hr.wf hframe.accepted hb
      obtain ⟨hinside, hawaited, hregistered, hbuilt, hown⟩ := hs
      rw [← hframe.pc] at hinside hawaited hregistered hbuilt hown
      rw [← hframe.remReqid] at hregistered hbuilt
      rw [← hframe.accepted] at hown
      rw [← hframe.calls] at hawaited
      exact ⟨hinside, fun b hb => hawaited b (hlive b hb), fun b hb => hregistered b (hlive b hb),
        hbuilt, hown⟩

/-- In a run of internal calls in which no ID is issued twice, commands belong to calls that
    have not returned. -/
theorem internalOk_of_run {v : VeThread}
    (h : Transition.Run (Sys.step P) Internal (Sys.init v) s) (hleft : s.IdsLeft) :
    s.InternalOk := by
  refine Sys.IdsLeft.invariant ?_ ?_ h hleft
  · constructor <;>
      simp [Sys.init, Sys.pipeline, Pipeline.live, CommQueue.init, Pc.internal, Pc.building,
        Pc.awaits]
  · intro s a s' hr hr' hleft _ hs hg hst
    exact hst.internalOk hr hr' hleft hg hs

/-! ## Calls that have returned -/

/-- A call that has returned stays so. -/
theorem Step.returned (h : Step P s a s') {t : T} {n : Nat} (hret : s.Returned t n) :
    s'.Returned t n := by
  rcases hret with hlt | ⟨hn, hpos⟩
  · exact .inl (Nat.lt_of_lt_of_le hlt (h.calls_le t))
  · rcases h.call_cases t with ⟨rfl, hsame⟩ | ⟨op, -, hnext⟩ | ⟨-, -, hpc, hsame⟩
    · -- the only step of a caller that has returned is the one to its next call
      refine .inr ⟨hn.trans hsame.symm, .inl ?_⟩
      cases h with
      | finish t r hpc => exact Function.update_self _ _ _
      | move t pc pc' hpc hm =>
          rw [hpc] at hpos
          cases hm <;> simp at hpos
      | _ => simp_all
    · exact .inl (by omega)
    · exact .inr ⟨hn.trans hsame.symm, hpc ▸ hpos⟩

theorem returned_of_run {t : T} {n : Nat} (h : Transition.Run (Sys.step P) Internal s s')
    (hret : s.Returned t n) : s'.Returned t n :=
  h.invariant (I := fun s => s.Returned t n)
    (fun _ _ _ hs _ hst => (Sys.step_cases hst).returned hs) hret

/-- In every run of internal calls in which no ID is issued twice: once a call has returned or
    thrown, its command is neither in the request queue nor being executed, and it is not
    executed afterwards. -/
theorem internal_not_outlived (v : VeThread) {t : T} {n : Nat}
    (h : Transition.Run (Sys.step P) Internal (Sys.init v) s) (hret : s.Returned t n)
    (h' : Transition.Run (Sys.step P) Internal s s') (hleft : s'.IdsLeft) :
    s'.Settled t n ∧ ∀ x ∈ s'.ran, x.1.owner = (t, n) → x ∈ s.ran := by
  induction h' with
  | refl => exact ⟨(internalOk_of_run h hleft).settled hret, fun x hx _ => hx⟩
  | tail hrun hg hst ih =>
      rename_i s₁ s₂ a
      have hstep := Sys.step_cases hst
      have hleft₁ : s₁.IdsLeft := Nat.lt_of_le_of_lt hstep.issued_le hleft
      obtain ⟨hsettled, hran⟩ := ih hleft₁
      have hret₂ : s₂.Returned t n := hstep.returned (returned_of_run hrun hret)
      refine ⟨(internalOk_of_run (h.trans (.tail hrun hg hst)) hleft).settled hret₂, ?_⟩
      intro x hx howner
      rcases hstep.ran_cases hx with hold | ⟨env, c, -, -, hcmd, ⟨-, rfl⟩ | ⟨f, o, -, -, rfl⟩⟩
      · exact hran x hold howner
      · exact absurd howner (hsettled.2 c hcmd)
      · exact absurd howner (hsettled.2 c hcmd)

/-- A check that implies that only internal calls are started. -/
def internalCheck (_ : Sys T) : Act T → Bool
  | .start _ op => op.internal
  | _ => true

omit [DecidableEq T] in
theorem internal_of_check {s : Sys T} {a : Act T} (h : internalCheck s a = true) :
    Internal s a := by
  cases a with
  | start t op => exact h
  | caller t => trivial
  | pseudo env => trivial

/-- The VE thread ends in an error condition. -/
def faultingEnv : Env := Env.plain [] [.raised { exs := 0x800, sysnum := 0, args := fun _ => 0 }]

/-- The worker fails in the function that `doOnContext` runs, and the caller throws. -/
theorem internal_not_outlived_error :
    ∃ s : Sys Bool,
      Transition.Run (Sys.step linuxPlatform) Internal (Sys.init newThread) s ∧
      s.pc true = .done .threw ∧ s.Settled true 1 := by
  obtain ⟨s, hrun, hs⟩ := Transition.exists_run (Sys.step linuxPlatform)
    internalCheck (Sys.init newThread)
    [.pseudo failingEnv, .pseudo failingEnv, .start true (.doOnContext true 0x4000),
      .caller true, .caller true, .caller true, .caller true, .caller true, .caller true,
      .pseudo faultingEnv, .pseudo faultingEnv, .pseudo faultingEnv, .pseudo faultingEnv,
      .pseudo faultingEnv, .caller true]
    (fun s => s.pc true == .done .threw && s.calls true == 1 && s.issued == 1)
    (fun _ _ => internal_of_check) (by decide +kernel)
  simp only [Bool.and_eq_true, beq_iff_eq] at hs
  obtain ⟨⟨hpc, hcalls⟩, hissued⟩ := hs
  have hleft : s.IdsLeft := by
    rw [Sys.IdsLeft, hissued]
    decide
  have hret : s.Returned true 1 := .inr ⟨hcalls.symm, .inr ⟨_, hpc⟩⟩
  exact ⟨s, hrun, hpc, (internal_not_outlived newThread hrun hret (.refl s) hleft).1⟩

/-! ## The counter wraps around

After 2 ^ 64 - 1 other requests an ID is issued again, and the caller that waits for it first
takes it out of `rem_reqid`. -/

section Wrap

/-- The function that the callers run. -/
def wrapFunc : BitVec 64 := 0x4000

/-- Every call that is started runs this function through `doOnContext`. -/
def OnlyDoOnContext (_ : Sys Bool) : Act Bool → Prop
  | .start _ op => op = .doOnContext false wrapFunc
  | _ => True

instance (s : Sys Bool) : (a : Act Bool) → Decidable (OnlyDoOnContext s a)
  | .start _ op => inferInstanceAs (Decidable (op = .doOnContext false wrapFunc))
  | .caller _ | .pseudo _ => .isTrue trivial

/-- The VE thread runs the function and comes back to its block request. -/
def wrapEnv : Env := Env.plain [] [.raised (.blockRequest 0 0x8000)]

/-- What matters of a state while the caller `true` rests and the caller `false` makes calls. -/
structure View where
  pc : Pc Bool
  serial : Nat
  resting : Pc Bool
  calls : Nat
  state : ContextState
  comq : CommQueue Bool
  seqNo : BitVec 64
  remReqid : Finset (BitVec 64)
  reqMtx : Option Bool
  pseudo : Pseudo
  command : Option (Command Bool)
deriving DecidableEq

def Sys.view (s : Sys Bool) : View :=
  ⟨s.pc false, s.calls false, s.pc true, s.calls true, s.thread.state, s.comq, s.seqNo, s.remReqid,
    s.reqMtx, s.pseudo, s.command⟩

/-- Every state with the view `v` leads to one with the view `w`. -/
def Leads (v w : View) : Prop :=
  ∀ s : Sys Bool, s.view = v →
    ∃ s', Transition.Run (Sys.step linuxPlatform) OnlyDoOnContext s s' ∧ s'.view = w

/-- The caller `false` makes calls, the caller `true` stays in its call, and the pseudo thread runs
    only commands of the caller `false`. -/
def Wrapping (s : Sys Bool) : Act Bool → Prop
  | .start t op => t = false ∧ op = .doOnContext false wrapFunc
  | .caller t => t = true → ∀ r, s.pc true ≠ .done r
  | .pseudo _ => s.pseudo = .run → ∀ c, s.command = some c → c.caller = false

theorem Wrapping.onlyDoOnContext {s : Sys Bool} {a : Act Bool} (h : Wrapping s a) :
    OnlyDoOnContext s a := by
  cases a with
  | start t op => exact h.2
  | caller t => trivial
  | pseudo env => trivial

/-- Every state with the view `v` leads to one with the view `w` by such steps. -/
def Wraps (v w : View) : Prop :=
  ∀ s : Sys Bool, s.view = v →
    ∃ s', Transition.Run (Sys.step linuxPlatform) Wrapping s s' ∧ s'.view = w

theorem Wraps.leads {v w : View} (h : Wraps v w) : Leads v w := by
  intro s hs
  obtain ⟨s', hrun, hw⟩ := h s hs
  exact ⟨s', hrun.mono fun _ _ => Wrapping.onlyDoOnContext, hw⟩

theorem Wraps.trans {u v w : View} (h₁ : Wraps u v) (h₂ : Wraps v w) : Wraps u w := by
  intro s hs
  obtain ⟨s₁, hrun₁, hv⟩ := h₁ s hs
  obtain ⟨s₂, hrun₂, hw⟩ := h₂ s₁ hv
  exact ⟨s₂, hrun₁.trans hrun₂, hw⟩

theorem Wraps.of_step {v w : View} (act : Act Bool) (hg : ∀ s, s.view = v → Wrapping s act)
    (h : ∀ s : Sys Bool, s.view = v → (s.step linuxPlatform act).map Sys.view = some w) :
    Wraps v w := by
  intro s hs
  obtain ⟨s', hstep, hw⟩ := Option.map_eq_some_iff.mp (h s hs)
  exact ⟨s', .tail (.refl s) (hg s hs) hstep, hw⟩

/-- A step of the caller `false`. -/
theorem Wraps.of_caller {v w : View}
    (h : ∀ s : Sys Bool, s.view = v → (s.step linuxPlatform (.caller false)).map Sys.view = some w) :
    Wraps v w :=
  .of_step (.caller false) (fun _ _ hfalse => by cases hfalse) h

/-- A step of the caller `true`. -/
theorem Wraps.of_resting {v w : View} (hv : ∀ r, v.resting ≠ .done r)
    (h : ∀ s : Sys Bool, s.view = v → (s.step linuxPlatform (.caller true)).map Sys.view = some w) :
    Wraps v w := by
  refine .of_step (.caller true) (fun s hs _ r hdone => ?_) h
  exact hv r ((congrArg View.resting hs).symm.trans hdone)

/-- A step of the pseudo thread, which runs no command. -/
theorem Wraps.of_pseudo {v w : View} (env : Env) (hv : v.pseudo ≠ .run)
    (h : ∀ s : Sys Bool, s.view = v → (s.step linuxPlatform (.pseudo env)).map Sys.view = some w) :
    Wraps v w := by
  refine .of_step (.pseudo env) (fun s hs hrun => ?_) h
  exact absurd ((congrArg View.pseudo hs).symm.trans hrun) hv

/-- The pseudo thread runs a command of the caller `false`. -/
theorem Wraps.of_run {v w : View} {c : Command Bool} (env : Env) (hc : c.caller = false)
    (hv : v.command = some c)
    (h : ∀ s : Sys Bool, s.view = v → (s.step linuxPlatform (.pseudo env)).map Sys.view = some w) :
    Wraps v w := by
  refine .of_step (.pseudo env) (fun s hs _ d hd => ?_) h
  cases hd.symm.trans ((congrArg View.command hs).trans hv)
  exact hc

variable {kind : Kind} {k : After} {w : Waiter} {r : Pc Bool} {n m : Nat} {c : Command Bool}
  {id : BitVec 64} {R : Finset (BitVec 64)}

/-- A caller without a command in the queues, while the pseudo thread waits for requests. -/
def View.waiting (pc : Pc Bool) (n : Nat) (r : Pc Bool) (id : BitVec 64) (R : Finset (BitVec 64)) :
    View :=
  ⟨pc, n, r, 1, .blocked, .init, id, R, none, .pop, none⟩

theorem wraps_start : Wraps (.waiting .idle n r id R)
    (.waiting (.test (.callAsync wrapFunc) (.collect .doOnContext)) (n + 1) r id R) := by
  refine .of_step (.start false (.doOnContext false wrapFunc)) (fun _ _ => ⟨rfl, rfl⟩) fun s hs => ?_
  simp only [Sys.view, View.waiting, View.mk.injEq] at hs
  simp [View.waiting, Sys.view, Sys.step, Sys.startCall, Sys.goto, Op.locks, Op.start, hs]

theorem wraps_test : Wraps (.waiting (.test (.callAsync wrapFunc) k) n r id R)
    (.waiting (.issue (.handler (.callAsync wrapFunc)) k) n r id R) := by
  refine .of_caller fun s hs => ?_
  simp only [Sys.view, View.waiting, View.mk.injEq] at hs
  simp [View.waiting, Sys.view, Sys.step, Sys.callerStep, Sys.goto, Handler.isNull, wrapFunc, hs]

theorem wraps_skip : Wraps (.waiting (.issue kind k) n r requestIdInvalid R)
    (.waiting (.issue kind k) n r 0 R) := by
  refine .of_caller fun s hs => ?_
  simp only [Sys.view, View.waiting, View.mk.injEq] at hs
  simp [View.waiting, Sys.view, Sys.step, Sys.callerStep, Sys.issue, hs, requestIdInvalid]

theorem wraps_issue (hid : id ≠ requestIdInvalid) : Wraps (.waiting (.issue kind k) n r id R)
    (.waiting (.insert id kind k) n r (id + 1) R) := by
  refine .of_caller fun s hs => ?_
  simp only [Sys.view, View.waiting, View.mk.injEq] at hs
  simp [View.waiting, Sys.view, Sys.step, Sys.callerStep, Sys.issue, Sys.goto, hs, hid]

theorem wraps_insert {id' : BitVec 64} : Wraps (.waiting (.insert id kind k) n r id' R)
    (.waiting (.load ⟨⟨false, n, id, kind⟩, none⟩ k) n r id' (insert id R)) := by
  refine .of_caller fun s hs => ?_
  simp only [Sys.view, View.waiting, View.mk.injEq] at hs
  simp [View.waiting, Sys.view, Sys.step, Sys.callerStep, Sys.insertId, Sys.goto, hs]

theorem wraps_load : Wraps (.waiting (.load c k) n r id R) (.waiting (.push c k) n r id R) := by
  refine .of_caller fun s hs => ?_
  simp only [Sys.view, View.waiting, View.mk.injEq] at hs
  simp [View.waiting, Sys.view, Sys.step, Sys.callerStep, Sys.goto, CommQueue.init, hs]

/-- The command is in the request queue. -/
def View.requested (pc : Pc Bool) (n : Nat) (r : Pc Bool) (c : Command Bool) (id : BitVec 64)
    (R : Finset (BitVec 64)) : View :=
  ⟨pc, n, r, 1, .blocked, CommQueue.init.pushRequest c, id, R, none, .pop, none⟩

theorem wraps_push : Wraps (.waiting (.push c (.collect w)) n r id R)
    (.requested (.waitErase c.msgid w) n r c id R) := by
  refine .of_caller fun s hs => ?_
  simp only [Sys.view, View.waiting, View.mk.injEq] at hs
  simp [View.requested, Sys.view, Sys.step, Sys.callerStep, Sys.pushRequest, Sys.goto, After.next, hs]

theorem wraps_waitErase {id' : BitVec 64} (hid : id ∈ R) :
    Wraps (.requested (.waitErase id w) n r c id' R)
      (.requested (.waitFor id w) n r c id' (R.erase id)) := by
  refine .of_caller fun s hs => ?_
  simp only [Sys.view, View.requested, View.mk.injEq] at hs
  simp [View.requested, Sys.view, Sys.step, Sys.callerStep, Sys.waitErase, Sys.goto, hs, hid]

/-- The pseudo thread works on a command while the caller waits for it. -/
def View.working (w : Waiter) (n : Nat) (r : Pc Bool) (c : Command Bool) (id : BitVec 64)
    (R : Finset (BitVec 64)) (p : Pseudo) : View :=
  ⟨.waitFor c.msgid w, n, r, 1, .blocked, .init, id, R, none, p, some c⟩

theorem wraps_pop : Wraps (.requested (.waitFor c.msgid w) n r c id R)
    (.working w n r c id R .run) := by
  refine .of_pseudo wrapEnv (by simp [View.requested]) fun s hs => ?_
  simp only [Sys.view, View.requested, View.mk.injEq] at hs
  simp [View.working, Sys.view, Sys.step, Sys.pseudoStep, CommQueue.popRequest, CommQueue.init,
    CommQueue.pushRequest, BlockingQueue.push, BlockingQueue.popNoWait, hs]

/-- The VE thread runs the function, which returns `v`. -/
def replyEnv (v : BitVec 64) : Env := Env.plain [] [.raised (.blockRequest v 0x8000)]

/-- The function returns the value on every VE thread. -/
theorem exec_replyEnv (v : BitVec 64) (t : VeThread) :
    ∃ o, Handler.exec linuxPlatform (.callAsync wrapFunc) (replyEnv v) t = .ok o ∧
      o.result = ⟨v, .ok⟩ ∧ o.rv = 0 ∧ o.thread.state = .blocked := by
  have hset : (replyEnv v).args.arguments = ([] : List Arg).map some := rfl
  have hok := (CallArgs.setup_ok_iff hset (replyEnv v).vh t.veSp _).mpr ⟨by decide, rfl⟩
  obtain ⟨st, hdo, -⟩ := doCall_of_setup wrapFunc (replyEnv v).machine hset hok
  have hevents : (replyEnv v).events = [] ++ .raised (.blockRequest v 0x8000) :: [] := rfl
  -- the kind of the exception does not depend on the value
  have hterm : (VeException.blockRequest 0 0x8000).Terminates linuxPlatform .default :=
    ⟨by decide, .inr (.inl (by decide))⟩
  have hnoerr : isError linuxPlatform (VeException.blockRequest 0 0x8000).exs = false := by decide
  obtain ⟨o, hexec, hresult, hrv, hstate, -⟩ := callAsync_block (P := linuxPlatform) hdo hevents
    (by simp) hterm hnoerr
  exact ⟨o, hexec, hresult, hrv, hstate⟩

theorem wraps_run (v : BitVec 64) (hcaller : c.caller = false)
    (hkind : c.kind = .handler (.callAsync wrapFunc)) :
    Wraps (.working w n r c id R .run) (.working w n r (c.setResult ⟨v, .ok⟩) id R .complete) := by
  refine .of_run (replyEnv v) hcaller rfl fun s hs => ?_
  simp only [Sys.view, View.working, View.mk.injEq] at hs
  obtain ⟨o, hexec, hresult, hrv, hstate⟩ := exec_replyEnv v s.thread
  simp [View.working, Sys.view, Sys.step, Sys.pseudoStep, Sys.runCommand, hs, hkind, hexec, hresult,
    hrv, hstate]

/-- The command is in the completion queue. -/
def View.completed (w : Waiter) (n : Nat) (r : Pc Bool) (c : Command Bool) (id : BitVec 64)
    (R : Finset (BitVec 64)) (p : Pseudo) : View :=
  ⟨.waitFor c.msgid w, n, r, 1, .blocked, CommQueue.init.pushCompletion c, id, R, none, p, none⟩

theorem wraps_complete :
    Wraps (.working w n r c id R .complete) (.completed w n r c id R .test) := by
  refine .of_pseudo wrapEnv (by simp [View.working]) fun s hs => ?_
  simp only [Sys.view, View.working, View.mk.injEq] at hs
  simp [View.completed, Sys.view, Sys.step, Sys.pseudoStep, Sys.complete, hs]

theorem wraps_loop : Wraps (.completed w n r c id R .test) (.completed w n r c id R .pop) := by
  refine .of_pseudo wrapEnv (by simp [View.completed]) fun s hs => ?_
  simp only [Sys.view, View.completed, View.mk.injEq] at hs
  simp [View.completed, Sys.view, Sys.step, Sys.pseudoStep, hs]

theorem wraps_take : Wraps (.completed w n r c id R .pop)
    (.waiting (.done (Sys.resultOf w c)) n r id R) := by
  refine .of_caller fun s hs => ?_
  simp only [Sys.view, View.completed, View.mk.injEq] at hs
  simp [View.waiting, Sys.view, Sys.step, Sys.callerStep, Sys.deliver, Sys.goto,
    CommQueue.findCompletion, CommQueue.init, CommQueue.pushCompletion, BlockingQueue.push,
    BlockingQueue.tryFind, BlockingQueue.takeFirst, hs]

theorem wraps_finish {ret : Ret} : Wraps (.waiting (.done ret) n r id R)
    (.waiting .idle n r id R) := by
  refine .of_caller fun s hs => ?_
  simp only [Sys.view, View.waiting, View.mk.injEq] at hs
  simp [View.waiting, Sys.view, Sys.step, Sys.callerStep, Sys.goto, hs]

/-- The caller is about to be issued an ID. -/
def View.issuing (n : Nat) (r : Pc Bool) (id : BitVec 64) (R : Finset (BitVec 64)) : View :=
  .waiting (.issue (.handler (.callAsync wrapFunc)) (.collect .doOnContext)) n r id R

theorem wraps_issuing : Wraps (.waiting .idle n r id R) (.issuing (n + 1) r id R) :=
  wraps_start.trans wraps_test

/-- The command with the ID `id` that a caller pushes in its `n`-th call. -/
def wrapCommand (t : Bool) (n : Nat) (id : BitVec 64) : Command Bool :=
  ⟨⟨t, n, id, .handler (.callAsync wrapFunc)⟩, none⟩

theorem wraps_submit (hid : id ≠ requestIdInvalid) : Wraps (.issuing n r id R)
    (.requested (.waitFor id .doOnContext) n r (wrapCommand false n id) (id + 1)
      ((insert id R).erase id)) :=
  (wraps_issue hid).trans <| wraps_insert.trans <| wraps_load.trans <| wraps_push.trans <|
    wraps_waitErase (Finset.mem_insert_self id R)

theorem wraps_serve (hcaller : c.caller = false)
    (hkind : c.kind = .handler (.callAsync wrapFunc)) :
    Wraps (.requested (.waitFor c.msgid w) n r c id R) (.waiting .idle n r id R) :=
  wraps_pop.trans <| (wraps_run 0 hcaller hkind).trans <| wraps_complete.trans <| wraps_loop.trans <|
    wraps_take.trans wraps_finish

/-- A call that is issued an ID takes it out of `rem_reqid` in the end. -/
theorem wraps_call (hid : id ≠ requestIdInvalid) :
    Wraps (.issuing n r id R) (.waiting .idle n r (id + 1) (R.erase id)) := by
  have hsubmit := wraps_submit (n := n) (r := r) (R := R) hid
  rw [Finset.erase_insert_eq_erase] at hsubmit
  exact hsubmit.trans (wraps_serve (c := wrapCommand false n id) rfl rfl)

/-- Calls use up the IDs after 0 one by one. -/
theorem wraps_calls (hm : m < 2 ^ 64 - 1) :
    Wraps (.waiting .idle 0 r 1 {0}) (.waiting .idle m r (1 + BitVec.ofNat 64 m) {0}) := by
  induction m with
  | zero => exact fun s hs => ⟨s, .refl s, by simpa using hs⟩
  | succ m ih =>
      have hid : (1 + BitVec.ofNat 64 m).toNat = 1 + m := by
        simp
        omega
      have hne : 1 + BitVec.ofNat 64 m ≠ requestIdInvalid := fun heq => by
        rw [heq, toNat_requestIdInvalid] at hid
        omega
      have hzero : 1 + BitVec.ofNat 64 m ≠ 0 := fun heq => by
        rw [heq] at hid
        simp at hid
        omega
      have hcall := wraps_issuing.trans (wraps_call (n := m + 1) (r := r) (R := {0}) hne)
      rw [Finset.erase_eq_of_notMem (by simpa using hzero)] at hcall
      have hnext : 1 + BitVec.ofNat 64 (m + 1) = 1 + BitVec.ofNat 64 m + 1 := by
        rw [BitVec.ofNat_add, BitVec.add_assoc]
        rfl
      exact hnext ▸ (ih (by omega)).trans hcall

/-- After the last ID the counter skips the invalid one, and comes back to 0. -/
theorem wraps_again : Wraps (.waiting .idle 0 r 1 {0}) (.issuing (2 ^ 64 - 1) r 0 {0}) := by
  have hcalls := wraps_calls (r := r) (m := 2 ^ 64 - 2) (by decide)
  have hlast : 1 + BitVec.ofNat 64 (2 ^ 64 - 2) = requestIdInvalid := by decide
  rw [hlast] at hcalls
  have hskip : Wraps (.issuing (2 ^ 64 - 2 + 1) r requestIdInvalid {0})
      (.issuing (2 ^ 64 - 2 + 1) r 0 {0}) := wraps_skip
  exact hcalls.trans <| wraps_issuing.trans hskip

/-- The ID 0 is issued again. -/
theorem wraps_wrap : Wraps (.waiting .idle 0 r 1 {0}) (.waiting .idle (2 ^ 64 - 1) r 1 ∅) := by
  have hzero := wraps_call (n := 2 ^ 64 - 1) (r := r) (R := {0})
    (show (0 : BitVec 64) ≠ requestIdInvalid by decide)
  rw [Finset.erase_singleton] at hzero
  exact wraps_again.trans hzero

/-- The resting caller pushes its command, and does not find its ID any more. -/
theorem wraps_threw (hid : c.msgid ∉ R) :
    Wraps (.waiting .idle n (.load c (.collect .doOnContext)) id R)
      (.requested .idle n (.done .threw) c id R) := by
  have hload : Wraps (.waiting .idle n (.load c (.collect .doOnContext)) id R)
      (.waiting .idle n (.push c (.collect .doOnContext)) id R) := by
    refine .of_resting (by simp [View.waiting]) fun s hs => ?_
    simp only [Sys.view, View.waiting, View.mk.injEq] at hs
    simp [View.waiting, Sys.view, Sys.step, Sys.callerStep, Sys.goto, CommQueue.init, hs]
  have hpush : Wraps (.waiting .idle n (.push c (.collect .doOnContext)) id R)
      (.requested .idle n (.waitErase c.msgid .doOnContext) c id R) := by
    refine .of_resting (by simp [View.waiting]) fun s hs => ?_
    simp only [Sys.view, View.waiting, View.mk.injEq] at hs
    simp [View.requested, Sys.view, Sys.step, Sys.callerStep, Sys.pushRequest, Sys.goto, After.next,
      hs]
  have herase : Wraps (.requested .idle n (.waitErase c.msgid .doOnContext) c id R)
      (.requested .idle n (.done .threw) c id R) := by
    refine .of_resting (by simp [View.requested]) fun s hs => ?_
    simp only [Sys.view, View.requested, View.mk.injEq] at hs
    simp [View.requested, Sys.view, Sys.step, Sys.callerStep, Sys.waitErase, Sys.goto,
      Waiter.returns, hs, hid]
  exact hload.trans <| hpush.trans herase

/-- A caller is issued the ID 0 and rests before it pushes its command, while the other caller
    makes 2 ^ 64 - 1 calls, the last one with the ID 0 again. Then the first caller throws with
    its command in the request queue. -/
theorem internal_outlived :
    ∃ s : Sys Bool,
      Transition.Run (Sys.step linuxPlatform) OnlyDoOnContext (Sys.init newThread) s ∧
      s.Returned true 1 ∧ s.pc true = .done .threw ∧ ¬ s.Settled true 1 := by
  obtain ⟨s₀, hstart, hs₀⟩ := Transition.exists_run (Sys.step linuxPlatform)
    (fun s a => decide (OnlyDoOnContext s a)) (Sys.init newThread)
    [.pseudo wrapEnv, .pseudo wrapEnv, .start true (.doOnContext false wrapFunc),
      .caller true, .caller true, .caller true]
    (fun s => decide (s.view = .waiting .idle 0
      (.load (wrapCommand true 1 0) (.collect .doOnContext)) 1 {0}))
    (fun _ _ => of_decide_eq_true) (by decide +kernel)
  obtain ⟨s, hrun, hs⟩ := (wraps_wrap.trans (wraps_threw (by simp))).leads s₀
    (of_decide_eq_true hs₀)
  simp only [Sys.view, View.requested, View.mk.injEq] at hs
  obtain ⟨-, -, hpc, hcalls, -, hcomq, -⟩ := hs
  refine ⟨s, hstart.trans hrun, .inr ⟨hcalls.symm, .inr ⟨_, hpc⟩⟩, hpc, fun hsettled => ?_⟩
  exact hsettled.1 (wrapCommand true 1 0) (by simp [hcomq, CommQueue.init]) rfl

end Wrap

end Veo
