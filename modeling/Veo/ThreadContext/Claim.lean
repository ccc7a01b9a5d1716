-- SUMMARY: A caller that waits for a request has it to itself: nobody else collects the result.
import Veo.ThreadContext.Submission

/-!
# Claims on a result

`callWaitResult` takes the ID out of `rem_reqid` before it waits, and `callPeekResult` holds
`req_mtx` from the lookup to the removal. So the ID is handed to one caller, who alone can
take the completion. `exitProc` and `close` wait for their own commands without looking at
`rem_reqid`.
-/

namespace Veo

open Transition

variable {T : Type} {P : Platform} {s s' : Sys T} {a : Act T} {t : T} {id : BitVec 64}

/-- The ID has been issued and taken out of `rem_reqid` for good, and no caller but `t` waits
    for its completion by it. -/
structure Sys.ClaimedBy (t : T) (id : BitVec 64) (s : Sys T) : Prop where
  issued : id.toNat < s.issued
  gone : id ∉ s.remReqid
  inserted : ∀ u kind k, s.pc u ≠ .insert id kind k
  only : ∀ u w, s.pc u = .waitFor id w → u = t

theorem After.next_ne_insert (k k' : After) (i j : BitVec 64) (kind : Kind) :
    (k.next i : Pc T) ≠ .insert j kind k' := by
  cases k <;> simp [After.next]

theorem After.next_ne_waitFor (k : After) (i j : BitVec 64) (w : Waiter) :
    (k.next i : Pc T) ≠ .waitFor j w := by
  cases k <;> simp [After.next]

theorem Moves.ne_insert {pc pc' : Pc T} (h : Moves s pc pc') (kind : Kind) (k : After) :
    pc' ≠ .insert id kind k := by
  cases h <;> first | exact After.next_ne_insert _ _ _ _ _ | simp

theorem Moves.ne_waitFor {pc pc' : Pc T} (h : Moves s pc pc') (w : Waiter) :
    pc' ≠ .waitFor id w := by
  cases h <;> first | exact After.next_ne_waitFor _ _ _ _ | simp

variable [DecidableEq T]

/-! ## How IDs come and go -/

/-- The caller that takes a step, or starts a call, goes to `pc`; the others stay. -/
theorem update_cases {u v : T} {pc pc' : Pc T} (h : Function.update s.pc u pc v = pc') :
    (v = u ∧ pc = pc') ∨ s.pc v = pc' := by
  rw [Function.update_apply] at h
  split at h
  · exact .inl ⟨‹_›, h⟩
  · exact .inr h

/-- A caller waits for an ID since it took it out of `rem_reqid`. -/
theorem Step.waitFor_cases (h : Step P s a s') {u : T} {w : Waiter}
    (hu : s'.pc u = .waitFor id w) :
    s.pc u = .waitFor id w ∨
      (a = .caller u ∧ id ∈ s.remReqid ∧ s'.remReqid = s.remReqid.erase id ∧
        s'.issued = s.issued) := by
  cases h with
  | waitErase v i w' hpc hfree hmem =>
      rcases update_cases hu with ⟨rfl, heq⟩ | hold
      · cases heq
        exact .inr ⟨rfl, hmem, rfl, rfl⟩
      · exact .inl hold
  | start v op hpc =>
      rcases update_cases hu with ⟨-, heq⟩ | hold
      · cases op <;> cases heq
      · exact .inl hold
  | move v pc pc' hpc hmove =>
      rcases update_cases hu with ⟨-, heq⟩ | hold
      · exact absurd heq (hmove.ne_waitFor w)
      · exact .inl hold
  | push v c k hpc =>
      rcases update_cases hu with ⟨-, heq⟩ | hold
      · exact absurd heq (After.next_ne_waitFor _ _ _ _)
      · exact .inl hold
  | closeTake v i c q hpc hfind =>
      rcases update_cases hu with ⟨-, heq⟩ | hold
      · split at heq <;> cases heq
      · exact .inl hold
  | issue | insert | peekLock | peekNone | peekTake | peekLost | waitTake | exitTake | exitDone
  | delete | finish =>
      rcases update_cases hu with ⟨-, heq⟩ | hold
      · cases heq
      · exact .inl hold
  | _ => exact .inl hu

/-- A caller is about to insert an ID since it was issued the next one. -/
theorem Step.insert_cases (h : Step P s a s') {u : T} {kind : Kind} {k : After}
    (hu : s'.pc u = .insert id kind k) :
    s.pc u = .insert id kind k ∨ (id = s.seqNo ∧ s'.remReqid = s.remReqid) := by
  cases h with
  | issue v kind' k' hpc hinv =>
      rcases update_cases hu with ⟨-, heq⟩ | hold
      · cases heq
        exact .inr ⟨rfl, rfl⟩
      · exact .inl hold
  | start v op hpc =>
      rcases update_cases hu with ⟨-, heq⟩ | hold
      · cases op <;> cases heq
      · exact .inl hold
  | move v pc pc' hpc hmove =>
      rcases update_cases hu with ⟨-, heq⟩ | hold
      · exact absurd heq (hmove.ne_insert kind k)
      · exact .inl hold
  | push v c k hpc =>
      rcases update_cases hu with ⟨-, heq⟩ | hold
      · exact absurd heq (After.next_ne_insert _ _ _ _ _)
      · exact .inl hold
  | closeTake v i c q hpc hfind =>
      rcases update_cases hu with ⟨-, heq⟩ | hold
      · split at heq <;> cases heq
      · exact .inl hold
  | waitErase | insert | peekLock | peekNone | peekTake | peekLost | waitTake | exitTake | exitDone
  | delete | finish =>
      rcases update_cases hu with ⟨-, heq⟩ | hold
      · cases heq
      · exact .inl hold
  | _ => exact .inl hu

/-- An ID gets into `rem_reqid` by being inserted. -/
theorem Step.remReqid_cases (h : Step P s a s') (hid : id ∈ s'.remReqid) :
    id ∈ s.remReqid ∨
      ∃ u kind k c, s.pc u = .insert id kind k ∧ s'.pc u = .load c k := by
  cases h with
  | insert u i kind k hpc hfree =>
      rcases Finset.mem_insert.mp hid with rfl | hold
      · exact .inr ⟨u, kind, k, _, hpc, Function.update_self _ _ _⟩
      · exact .inl hold
  | peekTake | waitErase => exact .inl (Finset.mem_of_mem_erase hid)
  | _ => exact .inl hid

/-! ## Claims -/

/-- Claims are kept: an ID that is gone does not come back. -/
theorem Step.claimedBy (h : Step P s a s') (hids : s.IdsOk) (hs : s.ClaimedBy t id) :
    s'.ClaimedBy t id := by
  constructor
  case issued => exact Nat.lt_of_lt_of_le hs.issued h.issued_le
  case gone =>
    intro hmem
    rcases h.remReqid_cases hmem with hold | ⟨u, kind, k, c, hpc, -⟩
    · exact hs.gone hold
    · exact hs.inserted u kind k hpc
  case inserted =>
    intro u kind k hu
    rcases h.insert_cases hu with hold | ⟨rfl, -⟩
    · exact hs.inserted u kind k hold
    · -- a new ID is the counter, above all that were issued
      exact absurd hs.issued (by rw [hids.seqNo]; exact Nat.lt_irrefl _)
  case only =>
    intro u w hu
    rcases h.waitFor_cases hu with hold | ⟨-, hmem, -⟩
    · exact hs.only u w hold
    · exact absurd hmem hs.gone

/-- IDs that are waited for are claimed, and an ID that is still to be inserted is not in
    `rem_reqid` yet. -/
structure Sys.ClaimsOk (s : Sys T) : Prop where
  claimed : ∀ t id w, s.pc t = .waitFor id w → s.ClaimedBy t id
  fresh : ∀ u id kind k, s.pc u = .insert id kind k → id ∉ s.remReqid

theorem Step.claimsOk (h : Step P s a s') (hids : s.IdsOk) (hs : s.ClaimsOk) : s'.ClaimsOk := by
  constructor
  case claimed =>
    intro u i w hu
    rcases h.waitFor_cases hu with hold | ⟨hself, hmem, herase, hissued⟩
    · exact h.claimedBy hids (hs.claimed u i w hold)
    · -- the caller has just taken the ID; it was nobody else's
      have hgone : i ∉ s'.remReqid := by
        rw [herase]
        exact Finset.notMem_erase i _
      refine ⟨hissued ▸ hids.rem i hmem, hgone, fun v kind k hv => ?_, fun v w' hv => ?_⟩
      · rcases h.insert_cases hv with hold | ⟨-, hrem⟩
        · exact hs.fresh v i kind k hold hmem
        · exact hgone (hrem ▸ hmem)
      · rcases h.waitFor_cases hv with hold | ⟨hother, -⟩
        · exact absurd hmem (hs.claimed v i w' hold).gone
        · exact Act.caller.inj (hother.symm.trans hself)
  case fresh =>
    intro u i kind k hu hmem
    rcases h.insert_cases hu with hold | ⟨rfl, hrem⟩
    · rcases h.remReqid_cases hmem with hmem | ⟨v, kind', k', c, hv, hv'⟩
      · exact hs.fresh u i kind k hold hmem
      · have hsame : v = u := hids.pendingDistinct v u i (by rw [hv]; rfl) (by rw [hold]; rfl)
        rw [hsame, hu] at hv'
        cases hv'
    · rw [hrem] at hmem
      exact absurd (hids.rem _ hmem) (by rw [hids.seqNo]; exact Nat.lt_irrefl _)

theorem Reachable.claimsOk (h : Reachable P s) (hleft : s.IdsLeft) : s.ClaimsOk := by
  obtain ⟨v, hrun⟩ := h
  refine Sys.IdsLeft.invariant ?_ ?_ hrun hleft
  · exact ⟨(fun _ _ _ h => by cases h), fun _ _ _ _ h => by cases h⟩
  · intro s a s' hreach _ hleft _ hs _ hst
    exact hst.claimsOk (hreach.idsOk hleft) hs

/-! ## `exitProc` and `close` wait for their own commands -/

/-- The requests of `exitProc` and `close`. -/
def Kind.shuts : Kind → Bool
  | .handler (.exitProc _) | .close => true
  | _ => false

/-- A caller in `exitProc` or `close` builds a request of this kind, and waits for the one that it
    pushed, or for the invalid ID. -/
def Pc.ShutOk (t : T) (accepted : List (Ticket T)) : Pc T → Prop
  | .test _ k => k.shuts = false
  | .issue kind k | .insert _ kind k => k.shuts = true → kind.shuts = true
  | .load c k | .push c k => k.shuts = true → c.kind.shuts = true
  | .exitWait id | .closeWait id => id = requestIdInvalid ∨
      ∃ b ∈ accepted, b.caller = t ∧ b.msgid = id ∧ b.kind.shuts = true
  | _ => True

section Shut
omit [DecidableEq T]
variable {acc acc' : List (Ticket T)} {pc pc' : Pc T}

theorem Pc.ShutOk.mono (h : pc.ShutOk t acc) (hsub : acc ⊆ acc') : pc.ShutOk t acc' := by
  cases pc with
  | exitWait id | closeWait id =>
      refine h.imp_right ?_
      rintro ⟨b, hb, hcaller, hid, hkind⟩
      exact ⟨b, hsub hb, hcaller, hid, hkind⟩
  | _ => exact h

theorem Op.start_shutOk (op : Op) : (op.start : Pc T).ShutOk t acc := by
  cases op <;> first | rfl | trivial

theorem After.next_shutOk {k : After} (h : k.shuts = true → id = requestIdInvalid ∨
    ∃ b ∈ acc, b.caller = t ∧ b.msgid = id ∧ b.kind.shuts = true) :
    (k.next id : Pc T).ShutOk t acc := by
  cases k with
  | exit | close => exact h rfl
  | submit | collect => trivial

theorem Kind.rejectedId_of_shuts {kind : Kind} (h : kind.shuts = true) (id : BitVec 64) :
    kind.rejectedId id = requestIdInvalid := by
  cases kind with
  | close => rfl
  | handler f =>
      cases f with
      | exitProc addr => rfl
      | _ => cases h

theorem Moves.shutOk (h : Moves s pc pc') (hpc : pc.ShutOk t acc) : pc'.ShutOk t acc := by
  cases h with
  | refused f k h => exact After.next_shutOk fun hk => .inl rfl
  | tested f k h => exact fun hk => absurd (hk.symm.trans hpc) (by decide)
  | ready c k h => exact hpc
  | rejected c k h => exact After.next_shutOk fun hk => .inl (Kind.rejectedId_of_shuts (hpc hk) _)
  | exitTested addr => exact fun _ => rfl
  | closeTested h => exact fun _ => rfl
  | peekUnknown | waitUnknown | exitSkipped | closeSkipped => trivial

end Shut

theorem Pc.ShutOk.update {pcs : T → Pc T} {u v : T} {pc : Pc T} {acc : List (Ticket T)}
    (hold : (pcs u).ShutOk u acc) (hown : u = v → pc.ShutOk u acc) :
    (Function.update pcs v pc u).ShutOk u acc := by
  rw [Function.update_apply]
  split
  · exact hown ‹_›
  · exact hold

theorem Step.shutOk (h : Step P s a s') (howned : s.Owned)
    (hs : ∀ u, (s.pc u).ShutOk u s.accepted) (u : T) : (s'.pc u).ShutOk u s'.accepted := by
  have hold := (hs u).mono h.accepted_subset
  cases h with
  | start v op hpc => exact hold.update fun _ => Op.start_shutOk op
  | move v pc pc' hpc hm =>
      refine hold.update ?_
      rintro rfl
      exact hm.shutOk (hpc ▸ hold)
  | issue v kind k hpc hinv | insert v i kind k hpc hfree =>
      refine hold.update ?_
      rintro rfl
      rw [hpc] at hold
      exact hold
  | push v c k hpc =>
      refine hold.update ?_
      rintro rfl
      rw [hpc] at hold
      refine After.next_shutOk fun hk => .inr ⟨c.toTicket, by simp, ?_, rfl, hold hk⟩
      exact (howned.built u c (by rw [hpc]; rfl)).1
  | closeTake v i c q hpc hfind =>
      refine hold.update fun _ => ?_
      split <;> trivial
  | peekLock | peekNone | peekTake | peekLost | waitErase | waitTake | exitTake | exitDone | delete
  | finish => exact hold.update fun _ => trivial
  | _ => exact hold

theorem Reachable.shutOk (h : Reachable P s) (u : T) : (s.pc u).ShutOk u s.accepted := by
  refine h.invariant (I := fun s => ∀ u, (s.pc u).ShutOk u s.accepted) (fun _ _ => trivial)
    (fun _ _ _ hwf hs hst => hst.shutOk hwf.owned hs) u

/-! ## Who takes a completion -/

/-- The delivery was made by `exitProc` or `close`, which wait for their own commands. -/
def Delivery.OfShutdown (d : Delivery T) : Prop := d.returns = .unit ∨ ∃ v, d.returns = .closed v

/-- The caller of `exitProc` or `close` took the command that it had pushed itself. -/
def Delivery.OwnShutdown (d : Delivery T) : Prop :=
  d.OfShutdown ∧ d.command.caller = d.caller ∧ d.command.kind.shuts = true

/-- A completion is handed out to a caller that waits or searches for it. -/
theorem Step.delivered_cases (h : Step P s a s') {d : Delivery T} (hd : d ∈ s'.delivered) :
    d ∈ s.delivered ∨ (∃ w, s.pc d.caller = .waitFor d.asked w) ∨
      s.pc d.caller = .peekSearch d.asked ∨
      (d.OfShutdown ∧ d.command.msgid = d.asked ∧ d.command ∈ s.comq.completion.queue ∧
        (s.pc d.caller = .exitWait d.asked ∨ s.pc d.caller = .closeWait d.asked)) := by
  have hfound {i : BitVec 64} {c : Command T} {q : CommQueue T}
      (hfind : s.comq.findCompletion i = some (c, q)) :
      c.msgid = i ∧ c ∈ s.comq.completion.queue := by
    obtain ⟨hid, -, l₁, l₂, hqueue, -⟩ := CommQueue.findCompletion_eq_some hfind
    exact ⟨hid, by simp [hqueue]⟩
  cases h with
  | peekTake u i c q hpc hfind hmem =>
      rcases List.mem_append.mp hd with hold | hnew
      · exact .inl hold
      · cases List.mem_singleton.mp hnew
        exact .inr (.inr (.inl hpc))
  | waitTake u i w c q hpc hfind =>
      rcases List.mem_append.mp hd with hold | hnew
      · exact .inl hold
      · cases List.mem_singleton.mp hnew
        exact .inr (.inl ⟨w, hpc⟩)
  | exitTake u i c q hpc hfind =>
      rcases List.mem_append.mp hd with hold | hnew
      · exact .inl hold
      · cases List.mem_singleton.mp hnew
        obtain ⟨hid, hmem⟩ := hfound hfind
        exact .inr (.inr (.inr ⟨.inl rfl, hid, hmem, .inl hpc⟩))
  | closeTake u i c q hpc hfind =>
      rcases List.mem_append.mp hd with hold | hnew
      · exact .inl hold
      · cases List.mem_singleton.mp hnew
        obtain ⟨hid, hmem⟩ := hfound hfind
        exact .inr (.inr (.inr ⟨.inr ⟨_, rfl⟩, hid, hmem, .inr hpc⟩))
  | _ => exact .inl hd

/-- What `exitProc` and `close` take is the command that they have pushed. -/
theorem Reachable.own_shutdown (h : Reachable P s) (hleft : s.IdsLeft) {d : Delivery T}
    (hshut : d.OfShutdown) (hid : d.command.msgid = d.asked)
    (hmem : d.command ∈ s.comq.completion.queue)
    (hpc : s.pc d.caller = .exitWait d.asked ∨ s.pc d.caller = .closeWait d.asked) :
    d.OwnShutdown := by
  have hids := h.idsOk hleft
  have hacc := h.mem_accepted (.inr (.inr hmem))
  have hwaits : d.asked = requestIdInvalid ∨
      ∃ b ∈ s.accepted, b.caller = d.caller ∧ b.msgid = d.asked ∧ b.kind.shuts = true := by
    have hok := h.shutOk d.caller
    rcases hpc with hpc | hpc <;> rw [hpc] at hok <;> exact hok
  rcases hwaits with hinv | ⟨b, hb, hcaller, hbid, hkind⟩
  · exact absurd (hid.trans hinv) (hids.ne_invalid hleft hacc)
  · have heq : d.command.toTicket = b := hids.eq_of_msgid hacc hb (hid.trans hbid.symm)
    subst heq
    exact ⟨hshut, hcaller, hkind⟩

/-- From the moment a caller waits for an ID, it is the only one that can: no other caller
    waits for it or peeks at it, and no completion with this ID is handed to another one,
    except to the `exitProc` or `close` that issued it. -/
theorem wait_exclusive {w : Waiter} (h : Reachable P s) (hpc : s.pc t = .waitFor id w)
    (hrun : Reaches (Sys.step P) s s') (hleft : s'.IdsLeft) :
    (∀ u w', s'.pc u = .waitFor id w' → u = t) ∧ (∀ u, s'.pc u ≠ .peekSearch id) ∧
    ∀ d ∈ s'.delivered, d.asked = id → d ∈ s.delivered ∨ d.caller = t ∨ d.OwnShutdown := by
  have hinv : Reachable P s' ∧ s'.ClaimedBy t id ∧
      ∀ d ∈ s'.delivered, d.asked = id → d ∈ s.delivered ∨ d.caller = t ∨ d.OwnShutdown := by
    induction hrun with
    | refl => exact ⟨h, (h.claimsOk hleft).claimed t id w hpc, fun d hd _ => .inl hd⟩
    | @tail u u' b hreaches _ hstep ih =>
        have hcases := Sys.step_cases hstep
        have hbefore : u.IdsLeft := Nat.lt_of_le_of_lt hcases.issued_le hleft
        obtain ⟨hreach, hclaim, hdeliv⟩ := ih hbefore
        obtain ⟨v, hv⟩ := hreach
        refine ⟨⟨v, .tail hv trivial hstep⟩, hcases.claimedBy (Reachable.idsOk ⟨v, hv⟩ hbefore) hclaim,
          fun d hd hasked => ?_⟩
        rcases hcases.delivered_cases hd with
          hold | ⟨w', hw⟩ | hpeek | ⟨hshut, hid, hmem, hwaits⟩
        · exact hdeliv d hold hasked
        · exact .inr (.inl (hclaim.only d.caller w' (hasked ▸ hw)))
        · -- a search has found its ID in `rem_reqid`
          have hmem := (Reachable.wf ⟨v, hv⟩).locked d.caller d.asked (by rw [hpeek]; rfl)
          exact absurd (hasked ▸ hmem.2) hclaim.gone
        · exact .inr (.inr (Reachable.own_shutdown ⟨v, hv⟩ hbefore hshut hid hmem hwaits))
  obtain ⟨hreach, hclaim, hdeliv⟩ := hinv
  refine ⟨hclaim.only, fun u hu => ?_, hdeliv⟩
  exact hclaim.gone (hreach.wf.locked u id (by rw [hu]; rfl)).2

/-- Two callers ask for the result of one VH call; the second one is refused. -/
theorem wait_exclusive_refused :
    ∃ s s' : Sys Bool, Reachable linuxPlatform s ∧ s.pc true = .waitFor 0 .user ∧
      Reaches (Sys.step linuxPlatform) s s' ∧ s'.IdsLeft ∧
      s'.pc false = .done (.result .error none) ∧ s'.delivered.length = 1 ∧
      ∀ d ∈ s'.delivered, d.asked = 0 → d ∈ s.delivered ∨ d.caller = true ∨ d.OwnShutdown := by
  let env : Env := .plain [] [.raised (.blockRequest 0 0x8000)]
  obtain ⟨s, hs, hp⟩ := exists_reaches (Sys.step linuxPlatform)
    (Sys.init ⟨.unknown, 0, fun _ => 0, [], []⟩ : Sys Bool)
    (.start true (.callVHAsync 1) :: List.replicate 6 (.caller true) ++
      [.start true (.callWaitResult 0), .caller true])
    (fun s => s.pc true = .waitFor 0 .user ∧
      ((runList (Sys.step linuxPlatform) (fun _ _ => true) s
        (.start false (.callWaitResult 0) :: .caller false ::
          List.replicate 5 (.pseudo env) ++ [.caller true])).map
        fun s' => (s'.issued, s'.pc false, s'.delivered.length)) =
        some (1, .done (.result .error none), 1)) (by decide)
  obtain ⟨hwait, hlater⟩ := of_decide_eq_true hp
  obtain ⟨s', hs', hfields⟩ := Option.map_eq_some_iff.mp hlater
  obtain ⟨hissued, hrest⟩ := Prod.mk.inj hfields
  obtain ⟨hpc, hlen⟩ := Prod.mk.inj hrest
  have hleft : s'.IdsLeft := by
    unfold Sys.IdsLeft
    rw [hissued]
    decide
  have hrun : Reaches (Sys.step linuxPlatform) s s' := run_of_runList (fun _ _ _ => trivial) hs'
  exact ⟨s, s', ⟨_, hs⟩, hwait, hrun, hleft, hpc, hlen,
    (wait_exclusive ⟨_, hs⟩ hwait hrun hleft).2.2⟩

end Veo
