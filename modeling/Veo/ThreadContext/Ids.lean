-- SUMMARY: Request IDs are distinct until the counter wraps around.
import Veo.ThreadContext.Invariant

/-!
# Request IDs

IDs come from a 64-bit counter that skips the invalid ID. As long as fewer than
`2 ^ 64 - 1` of them have been issued, no two commands have the same ID.
-/

namespace Veo

variable {T : Type}

/-- The ID that a caller has been issued for a command it has not pushed yet. -/
def Pc.pending : Pc T → Option (BitVec 64)
  | .insert id _ _ => some id
  | .load c _ | .push c _ => some c.msgid
  | _ => none

@[simp, grind =] theorem After.next_pending (k : After) (id : BitVec 64) :
    (k.next id : Pc T).pending = none := by
  cases k <;> rfl

@[simp, grind =] theorem Op.start_pending (op : Op) : (op.start : Pc T).pending = none := by
  cases op <;> rfl

theorem Moves.pending {s : Sys T} {pc pc' : Pc T} (h : Moves s pc pc') :
    pc'.pending = none ∨ pc'.pending = pc.pending := by
  cases h <;> first | exact .inr rfl | exact .inl rfl | exact .inl (After.next_pending _ _)

/-- The IDs in use were issued, and are distinct. -/
structure Sys.IdsOk (s : Sys T) : Prop where
  seqNo : s.seqNo.toNat = s.issued
  rem : ∀ id ∈ s.remReqid, id.toNat < s.issued
  accepted : ∀ a ∈ s.accepted, a.msgid.toNat < s.issued
  pending : ∀ t id, (s.pc t).pending = some id →
    id.toNat < s.issued ∧ ∀ a ∈ s.accepted, a.msgid ≠ id
  pendingDistinct : ∀ t u id, (s.pc t).pending = some id → (s.pc u).pending = some id → t = u
  distinct : (s.accepted.map Ticket.msgid).Nodup

/-- The counter has not wrapped around. -/
def Sys.IdsLeft (s : Sys T) : Prop := s.issued < 2 ^ 64 - 1

variable {P : Platform} {s s' : Sys T} {a : Act T}

theorem toNat_requestIdInvalid : requestIdInvalid.toNat = 2 ^ 64 - 1 := by decide

theorem Sys.IdsOk.ne_invalid (hs : s.IdsOk) (hleft : s.IdsLeft) {b : Ticket T}
    (hb : b ∈ s.accepted) : b.msgid ≠ requestIdInvalid := by
  intro heq
  have hlt := hs.accepted b hb
  rw [heq, toNat_requestIdInvalid] at hlt
  unfold Sys.IdsLeft at hleft
  omega

theorem Sys.IdsOk.invalid_not_mem (hs : s.IdsOk) (hleft : s.IdsLeft) :
    requestIdInvalid ∉ s.remReqid := by
  intro hmem
  have hlt := hs.rem _ hmem
  rw [toNat_requestIdInvalid] at hlt
  unfold Sys.IdsLeft at hleft
  omega

/-- Two accepted commands with the same ID are the same. -/
theorem Sys.IdsOk.eq_of_msgid (hs : s.IdsOk) {b c : Ticket T} (hb : b ∈ s.accepted)
    (hc : c ∈ s.accepted) (h : b.msgid = c.msgid) : b = c :=
  List.inj_on_of_nodup_map hs.distinct hb hc h

/-- The invariant is about the counter, the IDs, and the positions of callers. -/
theorem Sys.IdsOk.congr (hs : s.IdsOk) (hpc : s'.pc = s.pc) (hrem : s'.remReqid ⊆ s.remReqid)
    (hseq : s'.seqNo = s.seqNo) (hissued : s'.issued = s.issued)
    (hacc : s'.accepted = s.accepted) : s'.IdsOk where
  seqNo := by rw [hseq, hissued]; exact hs.seqNo
  rem := fun id hid => by rw [hissued]; exact hs.rem id (hrem hid)
  accepted := by rw [hacc, hissued]; exact hs.accepted
  pending := by rw [hpc, hacc, hissued]; exact hs.pending
  pendingDistinct := by rw [hpc]; exact hs.pendingDistinct
  distinct := by rw [hacc]; exact hs.distinct

variable [DecidableEq T]

theorem Step.issued_le (h : Step P s a s') : s.issued ≤ s'.issued := by
  cases h <;> first | exact Nat.le_refl _ | exact Nat.le_succ _

/-- A new ID is different from all the others. -/
theorem Sys.IdsOk.issue {t : T} {kind : Kind} {k : After} (hs : s.IdsOk)
    (hleft : s.issued + 1 < 2 ^ 64 - 1) :
    Sys.IdsOk { s with
      seqNo := s.seqNo + 1, issued := s.issued + 1,
      pc := Function.update s.pc t (.insert s.seqNo kind k) } := by
  have hseq := hs.seqNo
  constructor
  case seqNo =>
    rw [BitVec.toNat_add, hseq]
    exact Nat.mod_eq_of_lt (by simp; omega)
  case rem => exact fun id hid => Nat.lt_succ_of_lt (hs.rem id hid)
  case accepted => exact fun b hb => Nat.lt_succ_of_lt (hs.accepted b hb)
  case pending =>
    intro u id hu
    simp only [Function.update_apply] at hu
    split at hu
    · cases hu
      refine ⟨by rw [hseq]; exact Nat.lt_succ_self _, fun b hb heq => ?_⟩
      have hlt := hs.accepted b hb
      rw [heq, hseq] at hlt
      exact Nat.lt_irrefl _ hlt
    · obtain ⟨hlt, hne⟩ := hs.pending u id hu
      exact ⟨Nat.lt_succ_of_lt hlt, hne⟩
  case pendingDistinct =>
    -- an ID that was pending before is below the counter
    have hold (w : T) (hw : (s.pc w).pending = some s.seqNo) : False := by
      have hlt := (hs.pending w _ hw).1
      rw [hseq] at hlt
      exact Nat.lt_irrefl _ hlt
    intro u w id hu hw
    simp only [Function.update_apply] at hu hw
    split at hu <;> split at hw
    · simp_all
    · cases hu
      exact (hold w hw).elim
    · cases hw
      exact (hold u hu).elim
    · exact hs.pendingDistinct u w id hu hw
  case distinct => exact hs.distinct

/-- A caller that does not get a new ID keeps the IDs distinct. -/
theorem Sys.IdsOk.update {t : T} {pc : Pc T} (hs : s.IdsOk)
    (hpc : pc.pending = none ∨ pc.pending = (s.pc t).pending) :
    Sys.IdsOk { s with pc := Function.update s.pc t pc } := by
  have hold (u : T) (id : BitVec 64) (hu : (Function.update s.pc t pc u).pending = some id) :
      (s.pc u).pending = some id := by
    rw [Function.update_apply] at hu
    split at hu
    · rename_i heq
      subst heq
      rcases hpc with hnone | hsame
      · simp [hnone] at hu
      · exact hsame ▸ hu
    · exact hu
  exact ⟨hs.seqNo, hs.rem, hs.accepted, fun u id hu => hs.pending u id (hold u id hu),
    fun u w id hu hw => hs.pendingDistinct u w id (hold u id hu) (hold w id hw), hs.distinct⟩

theorem Sys.IdsOk.push {t : T} {c : Command T} {k : After} (hs : s.IdsOk)
    (hpc : s.pc t = .push c k) :
    Sys.IdsOk { s with
      comq := s.comq.pushRequest c, accepted := s.accepted ++ [c.toTicket],
      pc := Function.update s.pc t (k.next c.msgid) } := by
  have hpend : (s.pc t).pending = some c.msgid := by rw [hpc]; rfl
  obtain ⟨hlt, hfresh⟩ := hs.pending t _ hpend
  have hother (u : T) (id : BitVec 64)
      (hu : (Function.update s.pc t (k.next c.msgid) u).pending = some id) :
      u ≠ t ∧ (s.pc u).pending = some id := by
    rw [Function.update_apply] at hu
    split at hu
    · simp at hu
    · rename_i hne
      exact ⟨hne, hu⟩
  constructor
  case seqNo => exact hs.seqNo
  case rem => exact hs.rem
  case accepted =>
    intro b hb
    rcases List.mem_append.mp hb with hb | hb
    · exact hs.accepted b hb
    · cases List.mem_singleton.mp hb
      exact hlt
  case pending =>
    intro u id hu
    obtain ⟨hne, hold⟩ := hother u id hu
    obtain ⟨hlt', hfresh'⟩ := hs.pending u id hold
    refine ⟨hlt', fun b hb => ?_⟩
    rcases List.mem_append.mp hb with hb | hb
    · exact hfresh' b hb
    · cases List.mem_singleton.mp hb
      intro heq
      exact hne (hs.pendingDistinct u t id hold (heq ▸ hpend))
  case pendingDistinct =>
    intro u w id hu hw
    exact hs.pendingDistinct u w id (hother u id hu).2 (hother w id hw).2
  case distinct =>
    rw [List.map_append]
    refine List.Nodup.append hs.distinct (List.nodup_singleton _) fun id hid hc => ?_
    obtain ⟨b, hb, rfl⟩ := List.mem_map.mp hid
    exact hfresh b hb (List.mem_singleton.mp hc)

theorem Step.idsOk (h : Step P s a s') (hleft : s'.IdsLeft) (hs : s.IdsOk) : s'.IdsOk := by
  unfold Sys.IdsLeft at hleft
  cases h with
  | start t op hpc =>
      exact (hs.update (t := t) (.inl (Op.start_pending op))).congr rfl (Finset.Subset.refl _) rfl
        rfl rfl
  | move t pc pc' hpc hmove => exact hs.update (hpc ▸ hmove.pending)
  | issueSkip t kind k hpc hinv =>
      have hseq := hs.seqNo
      rw [hinv, toNat_requestIdInvalid] at hseq
      simp only at hleft
      omega
  | issue t kind k hpc hinv => exact hs.issue hleft
  | insert t id kind k hpc hfree =>
      have hpend : (s.pc t).pending = some id := by rw [hpc]; rfl
      have hsame : (Pc.load ⟨⟨t, s.calls t, id, kind⟩, none⟩ k).pending = (s.pc t).pending :=
        hpend.symm
      have hupdate := hs.update (.inr hsame)
      refine ⟨hupdate.seqNo, fun i hi => ?_, hupdate.accepted, hupdate.pending,
        hupdate.pendingDistinct, hupdate.distinct⟩
      rcases Finset.mem_insert.mp hi with rfl | hi
      · exact (hs.pending t _ hpend).1
      · exact hs.rem i hi
  | push t c k hpc => exact hs.push hpc
  | peekLock t id hpc hfree hmem
  | peekNone t id hpc hfind
  | peekLost t id c q hpc hfind hmem
  | waitTake t id w c q hpc hfind
  | exitTake t id c q hpc hfind
  | exitDone t hpc
  | delete t hpc
  | finish t r hpc =>
      exact (hs.update (t := t) (.inl rfl)).congr rfl (Finset.Subset.refl _) rfl rfl rfl
  | closeTake t id c q hpc hfind =>
      refine (hs.update (t := t) (.inl ?_)).congr rfl (Finset.Subset.refl _) rfl rfl rfl
      split <;> rfl
  | peekTake t id c q hpc hfind hmem
  | waitErase t id w hpc hfree hmem =>
      exact (hs.update (t := t) (.inl rfl)).congr rfl (Finset.erase_subset _ _) rfl rfl rfl
  | _ => exact hs.congr rfl (Finset.Subset.refl _) rfl rfl rfl

/-- What every guarded step preserves while IDs are left holds at the end of a run, if IDs are
    left there. -/
theorem Sys.IdsLeft.invariant {guard : Sys T → Act T → Prop} {v : VeThread} {I : Sys T → Prop}
    (hinit : I (Sys.init v))
    (hstep : ∀ s a s', Reachable P s → Reachable P s' → s.IdsLeft → s'.IdsLeft → I s →
      guard s a → Step P s a s' → I s')
    (h : Transition.Run (Sys.step P) guard (Sys.init v) s) (hleft : s.IdsLeft) : I s := by
  induction h with
  | refl => exact hinit
  | tail hrun hg hst ih =>
      have hcases := Sys.step_cases hst
      -- the counter only grows, so IDs were left before the step
      have hbefore := Nat.lt_of_le_of_lt hcases.issued_le hleft
      exact hstep _ _ _ ⟨v, hrun.reaches⟩ ⟨v, .tail hrun.reaches trivial hst⟩ hbefore hleft
        (ih hbefore) hg hcases

/-- As long as IDs are left, the ones in use are distinct. -/
theorem Reachable.idsOk (h : Reachable P s) (hleft : s.IdsLeft) : s.IdsOk := by
  obtain ⟨v, hrun⟩ := h
  refine Sys.IdsLeft.invariant ?_ ?_ hrun hleft
  · constructor <;> simp [Sys.init, Pc.pending]
  · intro s a s' _ _ _ hleft' hs _ hst
    exact hst.idsOk hleft' hs

omit [DecidableEq T] in
/-- The commands in the queues and in hand are the ones in the pipeline. -/
theorem Sys.mem_live {c : Command T}
    (hc : c ∈ s.comq.request.queue ∨ s.command = some c ∨ c ∈ s.comq.completion.queue) :
    c.toTicket ∈ s.pipeline.live := by
  simp only [Pipeline.live, Sys.pipeline, List.mem_append, List.mem_map]
  rcases hc with hc | hc | hc
  · exact .inl (.inl ⟨c, hc, rfl⟩)
  · exact .inl (.inr (by simp [hc]))
  · exact .inr ⟨_, ⟨c, hc, rfl⟩, rfl⟩

/-- Every command in the queues or in hand was accepted. -/
theorem Reachable.mem_accepted (h : Reachable P s) {c : Command T}
    (hc : c ∈ s.comq.request.queue ∨ s.command = some c ∨ c ∈ s.comq.completion.queue) :
    c.toTicket ∈ s.accepted :=
  h.pipeline.live_accepted (Sys.mem_live hc)

end Veo
