-- SUMMARY: The memories behind a context: asynchronous transfers of any number of callers act like a sequential memory, in the order of acceptance.
import Veo.Handlers.Throws
import Veo.ThreadContext.EventLoop

/-!
# What the transfers move

The handlers of the requests work on the memory of the program and on VE memory, while the
program and other VE threads store to them as well. The log of a run holds these stores, the
acceptance of each request and its execution; the memories are what the log says when it is
read as the log of one sequential machine.
-/

namespace Veo

open Transition

variable {T : Type}

/-! ## The system with its memories -/

structure Memories where
  vh : FlatMem
  ve : WordMem 64

/-- The transfer functions of the driver. -/
structure Driver where
  send : BitVec 64 → List Byte → WordMem 64 → Int × WordMem 64
  recv : WordMem 64 → BitVec 64 → Nat → List Byte → Int × List Byte
  sends : Sends send
  recvs : Recvs recv

/-- What happens to the memories, in order. -/
inductive Event (T : Type) where
  /-- The program stores to its own memory. -/
  | vhStore (a : Nat) (bs : List Byte)
  /-- Another VE thread stores to VE memory. -/
  | veStore (a : BitVec 64) (bs : List Byte)
  | accepted (x : Ticket T)
  | ran (x : Ticket T) (r : CmdResult)
deriving DecidableEq

/-- A context with the memories it works on. -/
structure DataSys (T : Type) where
  sys : Sys T
  mem : Memories
  log : List (Event T)

inductive DataAct (T : Type) where
  | vhStore (a : Nat) (bs : List Byte)
  | veStore (a : BitVec 64) (bs : List Byte)
  | context (a : Act T)

namespace DataSys

def init (t : VeThread) (m : Memories) : DataSys T := ⟨Sys.init t, m, []⟩

section Step
variable (P : Platform) (D : Driver)

/-- The environment of a step of the pseudo thread: the memories are the ones of the system. -/
def env (d : DataSys T) (e : Env) : Env :=
  { e with vh := d.mem.vh, ve := d.mem.ve, send := D.send, recv := D.recv }

/-- The outcome of the handler that a step of the pseudo thread runs. -/
def outcome (d : DataSys T) (e : Env) : Option Outcome :=
  match d.sys.pseudo, d.sys.command with
  | .run, some c =>
    match c.kind with
    | .handler f => (f.exec P (d.env D e) d.sys.thread).toOption
    | .close => none
  | _, _ => none

/-- The memories after a step of the pseudo thread. -/
def memAfter (d : DataSys T) (e : Env) : Memories :=
  match d.outcome P D e with
  | some o => ⟨o.vh, o.ve⟩
  | none => d.mem

/-- The context goes to `s`, and what it has accepted and run is added to the log. -/
def record (d : DataSys T) (s : Sys T) (m : Memories) : DataSys T :=
  { sys := s, mem := m,
    log := d.log ++ (s.accepted.drop d.sys.accepted.length).map .accepted ++
      (s.ran.drop d.sys.ran.length).map fun x => .ran x.1 x.2 }

def step [DecidableEq T] (d : DataSys T) : DataAct T → Option (DataSys T)
  | .vhStore a bs =>
    some { d with mem := { d.mem with vh := d.mem.vh.write a bs }, log := d.log ++ [.vhStore a bs] }
  | .veStore a bs =>
    some { d with mem := { d.mem with ve := d.mem.ve.write a bs }, log := d.log ++ [.veStore a bs] }
  | .context (.pseudo e) =>
    (d.sys.step P (.pseudo (d.env D e))).map fun s => d.record s (d.memAfter P D e)
  | .context a => (d.sys.step P a).map fun s => d.record s d.mem

end Step

end DataSys

/-! ## The sequential memory -/

/-- What a request does to the memories when it is run. A transfer is one atom. Of a failed one
    only the memory it reads is known. What a call leaves in VE memory is not known at all, and it
    may change the memory of the program if its copy-out takes place. -/
def Kind.Effect (r : CmdResult) (m m' : Memories) : Kind → Prop
  | .handler (.asyncReadMem dst src size) =>
    m'.ve = m.ve ∧ (r.status = .ok → m'.vh = m.vh.write dst (m.ve.read src size))
  | .handler (.asyncWriteMem dst src size) =>
    m'.vh = m.vh ∧ (r.status = .ok → m'.ve = m.ve.write dst (m.vh.read src size))
  | .handler (.callVHAsync _) | .close => m' = m
  | .handler (.callOpenContext _) => m'.vh = m.vh
  | .handler (.callAsync _) | .handler (.exitProc _) => r.status ≠ .ok → m'.vh = m.vh

/-- One event of the sequential memory. A request takes effect when it is run. -/
def Event.Sem (m : Memories) : Event T → Memories → Prop
  | .vhStore a bs, m' => m' = { m with vh := m.vh.write a bs }
  | .veStore a bs, m' => m' = { m with ve := m.ve.write a bs }
  | .accepted _, m' => m' = m
  | .ran x r, m' => x.kind.Effect r m m'

def Event.accepted? : Event T → Option (Ticket T)
  | .accepted x => some x
  | _ => none

def Event.ran? : Event T → Option (Ticket T × CmdResult)
  | .ran x r => some (x, r)
  | _ => none

/-- The handlers have the effect of their kind. -/
theorem Handler.exec_effect {P : Platform} {D : Driver} {d : DataSys T} {f : Handler} {e : Env}
    {t : VeThread} {o : Outcome} (h : f.exec P (d.env D e) t = .ok o) :
    (Kind.handler f).Effect o.result d.mem ⟨o.vh, o.ve⟩ := by
  cases f with
  | asyncReadMem dst src size =>
      cases h
      refine ⟨rfl, fun hok => ?_⟩
      have hzero : (D.recv d.mem.ve src size (d.mem.vh.read dst size)).1 = 0 := by
        by_contra hne
        simp [transferResult, DataSys.env, hne] at hok
      exact congrArg (d.mem.vh.write dst) (D.recvs _ _ _ _ hzero)
  | asyncWriteMem dst src size =>
      cases h
      refine ⟨rfl, fun hok => ?_⟩
      have hzero : (D.send dst (d.mem.vh.read src size) d.mem.ve).1 = 0 := by
        by_contra hne
        simp [transferResult, DataSys.env, hne] at hok
      exact D.sends _ _ _ hzero
  | callVHAsync func =>
      cases h
      rfl
  | callAsync addr =>
      intro hstatus
      obtain ⟨s, -, h₁⟩ := Except.bind_eq_ok.mp h
      obtain ⟨r, -, h₂⟩ := Except.bind_eq_ok.mp h₁
      split at h₂
      · cases h₂
        rfl
      · obtain ⟨⟨rv, u⟩, -, h₃⟩ := Except.bind_eq_ok.mp h₂
        obtain ⟨⟨args, vh⟩, -, h₄⟩ := Except.bind_eq_ok.mp h₃
        cases h₄
        exact absurd rfl hstatus
  | callOpenContext addr =>
      obtain ⟨s, -, h₁⟩ := Except.bind_eq_ok.mp h
      obtain ⟨req, -, h₂⟩ := Except.bind_eq_ok.mp h₁
      obtain ⟨tid, -, h₃⟩ := Except.bind_eq_ok.mp h₂
      obtain ⟨r, -, h₄⟩ := Except.bind_eq_ok.mp h₃
      split at h₄ <;> cases h₄
      rfl
  | exitProc addr =>
      intro hstatus
      obtain ⟨s, -, h₁⟩ := Except.bind_eq_ok.mp h
      obtain ⟨r, -, h₂⟩ := Except.bind_eq_ok.mp h₁
      split at h₂
      · cases h₂
        rfl
      · obtain ⟨⟨args, vh⟩, -, h₃⟩ := Except.bind_eq_ok.mp h₂
        cases h₃
        exact absurd rfl hstatus

/-! ## The log -/

/-- `d'` comes from `d` by the events `l`: they are added to the log, and the memories are what
    they say. -/
structure DataSys.Extends (d d' : DataSys T) (l : List (Event T)) : Prop where
  log : d'.log = d.log ++ l
  replays : Trace Event.Sem d.mem l d'.mem
  accepted : d'.sys.accepted = d.sys.accepted ++ l.filterMap Event.accepted?
  ran : d'.sys.ran = d.sys.ran ++ l.filterMap Event.ran?

section Log
variable {P : Platform} {D : Driver} {d d' d'' : DataSys T} {s : Sys T} {m : Memories}
  {l l' : List (Event T)}

theorem DataSys.Extends.refl (d : DataSys T) : d.Extends d [] := by
  constructor <;> simp [Trace]

theorem DataSys.Extends.trans (h : d.Extends d' l) (h' : d'.Extends d'' l') :
    d.Extends d'' (l ++ l') where
  log := by rw [h'.log, h.log, List.append_assoc]
  replays := trace_append.mpr ⟨_, h.replays, h'.replays⟩
  accepted := by rw [h'.accepted, h.accepted, List.append_assoc, List.filterMap_append]
  ran := by rw [h'.ran, h.ran, List.append_assoc, List.filterMap_append]

/-- A step that adds nothing to the log. -/
theorem DataSys.extends_quiet (hacc : s.accepted = d.sys.accepted) (hran : s.ran = d.sys.ran) :
    d.Extends (d.record s d.mem) [] := by
  constructor
  case replays => rfl
  all_goals simp [DataSys.record, hacc, hran]

theorem DataSys.extends_accept {x : Ticket T} (hacc : s.accepted = d.sys.accepted ++ [x])
    (hran : s.ran = d.sys.ran) : d.Extends (d.record s d.mem) [.accepted x] := by
  constructor
  case replays => exact ⟨d.mem, rfl, rfl⟩
  all_goals simp [DataSys.record, hacc, hran, Event.accepted?, Event.ran?]

theorem DataSys.extends_run {x : Ticket T} {r : CmdResult} (hacc : s.accepted = d.sys.accepted)
    (hran : s.ran = d.sys.ran ++ [(x, r)]) (heffect : x.kind.Effect r d.mem m) :
    d.Extends (d.record s m) [.ran x r] := by
  constructor
  case replays => exact ⟨m, heffect, rfl⟩
  all_goals simp [DataSys.record, hacc, hran, Event.accepted?, Event.ran?]

theorem DataSys.outcome_eq_some {e : Env} {o : Outcome} (h : d.outcome P D e = some o) :
    ∃ c f, d.sys.pseudo = .run ∧ d.sys.command = some c ∧ c.kind = .handler f ∧
      f.exec P (d.env D e) d.sys.thread = .ok o := by
  unfold DataSys.outcome at h
  split at h
  · rename_i c hpc hcmd
    split at h
    · rename_i f hkind
      exact ⟨c, f, hpc, hcmd, hkind, Except.toOption_eq_some.mp h⟩
    · cases h
  · cases h

variable [DecidableEq T]

/-- A step of the pseudo thread runs a handler with its outcome, or leaves the memories. -/
theorem DataSys.extends_pseudo {e : Env}
    (hstep : d.sys.step P (.pseudo (d.env D e)) = some s) :
    ∃ l, d.Extends (d.record s (d.memAfter P D e)) l := by
  have hacc := (Sys.step_cases hstep).callerFrame.accepted
  cases hout : d.outcome P D e with
  | some o =>
      have hmem : d.memAfter P D e = ⟨o.vh, o.ve⟩ := by rw [DataSys.memAfter, hout]
      obtain ⟨c, f, hpc, hcmd, hkind, hexec⟩ := DataSys.outcome_eq_some hout
      have hran : s.ran = d.sys.ran ++ [(c.toTicket, o.result)] := by
        simp only [Sys.step, Sys.pseudoStep, hpc, hcmd, Option.bind_some, Sys.runCommand, hkind,
          hexec, Option.some.injEq] at hstep
        rw [← hstep]
      rw [hmem]
      exact ⟨_, DataSys.extends_run hacc hran (hkind ▸ Handler.exec_effect hexec)⟩
  | none =>
      have hmem : d.memAfter P D e = d.mem := by rw [DataSys.memAfter, hout]
      rw [hmem]
      cases Sys.step_cases hstep with
      | run env c f o hpc hcmd hkind hexec =>
          simp [DataSys.outcome, hpc, hcmd, hkind, hexec, Except.toOption] at hout
      | runClose env c hpc hcmd hkind =>
          exact ⟨_, DataSys.extends_run hacc rfl (by rw [hkind]; rfl)⟩
      | _ => exact ⟨[], DataSys.extends_quiet hacc rfl⟩

/-- Callers leave the memories and add at most the request that they push. -/
theorem DataSys.extends_caller {a : Act T} (ha : ∀ e, a ≠ .pseudo e)
    (hstep : d.sys.step P a = some s) : ∃ l, d.Extends (d.record s d.mem) l := by
  have hran := (Sys.step_cases hstep).ran_of_caller ha
  cases Sys.step_cases hstep with
  | push t c k hpc => exact ⟨_, DataSys.extends_accept rfl hran⟩
  | _ => exact ⟨[], DataSys.extends_quiet rfl hran⟩

/-- What a step does is in the log. -/
theorem DataSys.extends_step {a : DataAct T} (hstep : d.step P D a = some d') :
    ∃ l, d.Extends d' l := by
  cases a with
  | vhStore a bs =>
      cases hstep
      exact ⟨[.vhStore a bs], rfl, ⟨_, rfl, rfl⟩, by simp [Event.accepted?], by simp [Event.ran?]⟩
  | veStore a bs =>
      cases hstep
      exact ⟨[.veStore a bs], rfl, ⟨_, rfl, rfl⟩, by simp [Event.accepted?], by simp [Event.ran?]⟩
  | context a =>
      cases a with
      | pseudo e =>
          obtain ⟨s, hs, rfl⟩ := Option.map_eq_some_iff.mp hstep
          exact DataSys.extends_pseudo hs
      | start t op | caller t =>
          obtain ⟨s, hs, rfl⟩ := Option.map_eq_some_iff.mp hstep
          exact DataSys.extends_caller (fun e he => by cases he) hs

/-- What a run does is in the log. -/
theorem DataSys.extends_of_reaches (h : Reaches (DataSys.step P D) d d') : ∃ l, d.Extends d' l := by
  refine h.invariant (I := fun d' => ∃ l, d.Extends d' l) (fun u a u' hu _ hstep => ?_)
    ⟨[], .refl d⟩
  obtain ⟨l, hl⟩ := hu
  obtain ⟨l', hl'⟩ := DataSys.extends_step hstep
  exact ⟨l ++ l', hl.trans hl'⟩

end Log

/-! ## Failures end the log -/

/-- A handler that returns zero has set the status OK. -/
theorem exec_status_ok {P : Platform} {f : Handler} {env : Env} {t : VeThread} {o : Outcome}
    (h : f.exec P env t = .ok o) (hrv : o.rv = 0) : o.result.status = .ok := by
  cases f with
  | callAsync addr =>
      rcases callAsync_result h with ⟨-, hstatus⟩ | ⟨hone, -⟩
      · exact hstatus
      · exact absurd (hrv.symm.trans hone) (by decide)
  | callOpenContext addr =>
      obtain ⟨s, -, h₁⟩ := Except.bind_eq_ok.mp h
      obtain ⟨req, -, h₂⟩ := Except.bind_eq_ok.mp h₁
      obtain ⟨tid, -, h₃⟩ := Except.bind_eq_ok.mp h₂
      obtain ⟨r, -, h₄⟩ := Except.bind_eq_ok.mp h₃
      split at h₄ <;> cases h₄
      rfl
  | exitProc addr =>
      obtain ⟨s, -, h₁⟩ := Except.bind_eq_ok.mp h
      obtain ⟨r, -, h₂⟩ := Except.bind_eq_ok.mp h₁
      split at h₂
      · cases h₂
        cases hrv
      · obtain ⟨⟨args, vh⟩, -, h₃⟩ := Except.bind_eq_ok.mp h₂
        cases h₃
        rfl
  | callVHAsync a =>
      cases h
      rfl
  | asyncReadMem d s n | asyncWriteMem d s n =>
      cases h
      exact if_pos hrv

/-- The phases before the event loop has failed or ended. -/
def Pseudo.serving (p : Pseudo) : Bool := p == .start || p.looping

/-- Only the last command that was run can have failed, and not while the event loop goes on. -/
structure Sys.RanOk (s : Sys T) : Prop where
  earlier : s.ran.Pairwise fun x _ => x.2.status = .ok
  serving : s.pseudo.serving = true → ∀ x ∈ s.ran, x.2.status = .ok

section RanOk
variable {P : Platform} {s s' : Sys T} {a : Act T}

theorem Sys.RanOk.of_ran (h : s.RanOk) (hran : s'.ran = s.ran)
    (hserving : s'.pseudo.serving = true → s.pseudo.serving = true) : s'.RanOk :=
  ⟨hran ▸ h.earlier, fun hs => hran ▸ h.serving (hserving hs)⟩

theorem Sys.RanOk.run {x : Ticket T × CmdResult} (h : s.RanOk) (hpc : s.pseudo = .run)
    (hran : s'.ran = s.ran ++ [x]) (hx : s'.pseudo.serving = true → x.2.status = .ok) :
    s'.RanOk := by
  have hall := h.serving (by rw [hpc]; rfl)
  constructor
  case earlier =>
    rw [hran]
    exact List.pairwise_append.mpr ⟨h.earlier, List.pairwise_singleton _ _, fun y hy _ _ => hall y hy⟩
  case serving =>
    intro hs y hy
    rw [hran] at hy
    rcases List.mem_append.mp hy with hold | hnew
    · exact hall y hold
    · exact List.mem_singleton.mp hnew ▸ hx hs

theorem Step.ranOk [DecidableEq T] (h : Step P s a s') (hs : s.RanOk) : s'.RanOk := by
  cases h with
  | runClose env c hpc hcmd hkind => exact hs.run hpc rfl fun hserving => rfl
  | run env c f o hpc hcmd hkind hexec =>
      refine hs.run hpc rfl fun hserving => exec_status_ok hexec ?_
      by_contra hne
      simp [hne, Pseudo.serving, Pseudo.looping] at hserving
  | startBlock env r v th hpc | testBlocked env hpc | pop env c q hpc =>
      exact hs.of_ran rfl fun _ => by rw [hpc]; rfl
  | complete env c next hpc hcmd =>
      refine hs.of_ran rfl fun hserving => ?_
      rcases hpc.phases with ⟨hp, rfl⟩ | ⟨-, rfl⟩ | ⟨-, rfl⟩ | ⟨-, rfl⟩
      · rw [hp]
        rfl
      all_goals cases hserving
  | startFail | startExit | abort | testReturned | failState | failClose | drainPop | drainEmpty =>
      exact hs.of_ran rfl fun hserving => by cases hserving
  | _ => exact hs.of_ran rfl id

theorem Reachable.ranOk [DecidableEq T] (h : Reachable P s) : s.RanOk :=
  h.invariant (fun _ => ⟨.nil, fun _ x hx => by cases hx⟩) fun _ _ _ _ hs hst => hst.ranOk hs

end RanOk

/-! ## Transfers in the order of acceptance -/

section Sequential
variable [DecidableEq T] {P : Platform} {D : Driver} {t : VeThread} {m₀ : Memories}
  {d : DataSys T}

theorem DataSys.reachable (h : Reaches (DataSys.step P D) (DataSys.init t m₀) d) :
    Reachable P d.sys := by
  have hinit : Reachable P (DataSys.init t m₀ : DataSys T).sys := ⟨t, .refl _⟩
  refine h.invariant (I := fun d => Reachable P d.sys) (fun d a d' hd _ hstep => ?_) hinit
  obtain ⟨t, hd⟩ := hd
  cases a with
  | vhStore a bs | veStore a bs =>
      cases hstep
      exact ⟨t, hd⟩
  | context a =>
      cases a with
      | pseudo e | start u op | caller u =>
          obtain ⟨s, hs, rfl⟩ := Option.map_eq_some_iff.mp hstep
          exact ⟨t, .tail hd trivial hs⟩

theorem DataSys.logged (h : Reaches (DataSys.step P D) (DataSys.init t m₀) d) :
    (DataSys.init t m₀).Extends d d.log := by
  obtain ⟨l, hl⟩ := DataSys.extends_of_reaches h
  have hlog : d.log = l := hl.log
  exact hlog ▸ hl

/-- Whatever the callers, the program and other VE threads do: the memories are the ones of a
    sequential machine that performs the requests one at a time, in the order in which they were
    accepted, among the stores of the others; and only the last request that was run can have
    failed. -/
theorem transfers_sequential (h : Reaches (DataSys.step P D) (DataSys.init t m₀) d) :
    Trace Event.Sem m₀ d.log d.mem ∧ d.log.filterMap Event.accepted? = d.sys.accepted ∧
    d.log.filterMap Event.ran? = d.sys.ran ∧
    (∃ rest, d.sys.accepted = d.sys.ran.map Prod.fst ++ rest) ∧
    d.sys.ran.Pairwise fun x _ => x.2.status = .ok := by
  have hlog := DataSys.logged h
  have hreach := DataSys.reachable h
  have horder := hreach.pipeline.order
  rw [List.append_assoc, List.append_assoc] at horder
  exact ⟨hlog.replays, hlog.accepted.symm, hlog.ran.symm, ⟨_, horder⟩, hreach.ranOk.earlier⟩

end Sequential

/-- A driver whose transfers succeed. -/
def plainDriver : Driver where
  send := fun a bs ve => (0, ve.write a bs)
  recv := fun ve a n _ => (0, ve.read a n)
  sends := fun _ _ _ _ => rfl
  recvs := fun _ _ _ _ _ => rfl

/-- Two callers: one writes four bytes to VE memory and the other one reads them back while the
    write is not run yet. In between the program changes another part of its memory. -/
def readBackRun : List (DataAct Bool) :=
  let start := Env.plain [] [.raised (.blockRequest 0 0x8000)]
  [.context (.pseudo start), .context (.start true (.asyncWriteMem 0x4000 0x10 4))] ++
  List.replicate 5 (.context (.caller true)) ++
  [.context (.start false (.asyncReadMem 0x20 0x4000 4))] ++
  List.replicate 5 (.context (.caller false)) ++ [.vhStore 0x30 [1, 2]] ++
  List.replicate 7 (.context (.pseudo start)) ++ [.veStore 0x5000 [7]]

theorem transfers_sequential_two :
    let m₀ : Memories := ⟨fun a => BitVec.ofNat 8 a, fun _ => 0⟩
    ∃ d : DataSys Bool,
      Reaches (DataSys.step linuxPlatform plainDriver) (DataSys.init newThread m₀) d ∧
      Trace Event.Sem m₀ d.log d.mem ∧ d.log.length = 6 ∧ d.sys.ran.length = 2 := by
  intro m₀
  obtain ⟨d, hreach, hlen⟩ := exists_reaches (DataSys.step linuxPlatform plainDriver)
    (DataSys.init newThread m₀) readBackRun
    (fun d => decide (d.log.length = 6 ∧ d.sys.ran.length = 2)) (by decide +kernel)
  exact ⟨d, hreach, (transfers_sequential hreach).1, of_decide_eq_true hlen⟩

/-! ## Data that is written and read back -/

/-- The request does not touch `n` bytes of the program's memory, as far as its result tells. -/
def Kind.SparesVh (r : CmdResult) (a n : Nat) : Kind → Prop
  | .handler (.asyncReadMem dst _ size) => r.status = .ok ∧ (a + n ≤ dst ∨ dst + size ≤ a)
  | .handler (.callAsync _) | .handler (.exitProc _) => r.status ≠ .ok
  | .handler (.asyncWriteMem _ _ _) | .handler (.callVHAsync _) | .handler (.callOpenContext _)
  | .close => True

/-- The event does not touch `n` bytes of the program's memory. -/
def Event.SparesVh (a n : Nat) : Event T → Prop
  | .vhStore b bs => a + n ≤ b ∨ b + bs.length ≤ a
  | .veStore _ _ | .accepted _ => True
  | .ran x r => x.kind.SparesVh r a n

/-- The request does not touch `n` bytes of VE memory. -/
def Kind.SparesVe (r : CmdResult) (a : BitVec 64) (n : Nat) : Kind → Prop
  | .handler (.asyncWriteMem dst _ size) => r.status = .ok ∧
    ∀ i < n, ∀ j < size, a + BitVec.ofNat 64 i ≠ dst + BitVec.ofNat 64 j
  | .handler (.asyncReadMem _ _ _) | .handler (.callVHAsync _) | .close => True
  | .handler _ => False

/-- The event does not touch `n` bytes of VE memory. -/
def Event.SparesVe (a : BitVec 64) (n : Nat) : Event T → Prop
  | .veStore b bs => ∀ i < n, ∀ j < bs.length, a + BitVec.ofNat 64 i ≠ b + BitVec.ofNat 64 j
  | .vhStore _ _ | .accepted _ => True
  | .ran x r => x.kind.SparesVe r a n

section ReadBack
variable {m m' : Memories} {e : Event T}

theorem Kind.SparesVh.read {k : Kind} {r : CmdResult} {a n : Nat} (hspares : k.SparesVh r a n)
    (h : k.Effect r m m') : m'.vh.read a n = m.vh.read a n := by
  cases k with
  | close => exact congrArg (fun m : Memories => m.vh.read a n) h
  | handler f =>
      cases f with
      | asyncReadMem dst src size =>
          rw [h.2 hspares.1]
          exact FlatMem.read_write_of_disjoint _ (by simpa using hspares.2)
      | asyncWriteMem dst src size => rw [h.1]
      | callVHAsync func => exact congrArg (fun m : Memories => m.vh.read a n) h
      | callOpenContext addr => exact congrArg (fun vh : FlatMem => vh.read a n) h
      | callAsync addr | exitProc addr => exact congrArg (fun vh : FlatMem => vh.read a n) (h hspares)

theorem Event.SparesVh.read {a n : Nat} (hspares : e.SparesVh a n) (h : e.Sem m m') :
    m'.vh.read a n = m.vh.read a n := by
  cases e with
  | vhStore b bs =>
      cases h
      exact FlatMem.read_write_of_disjoint _ hspares
  | veStore b bs | accepted x =>
      cases h
      rfl
  | ran x r => exact Kind.SparesVh.read hspares h

theorem Kind.SparesVe.read {k : Kind} {r : CmdResult} {a : BitVec 64} {n : Nat}
    (hspares : k.SparesVe r a n) (h : k.Effect r m m') : m'.ve.read a n = m.ve.read a n := by
  cases k with
  | close => exact congrArg (fun m : Memories => m.ve.read a n) h
  | handler f =>
      cases f with
      | asyncWriteMem dst src size =>
          rw [h.2 hspares.1]
          exact WordMem.read_write_of_disjoint _ (by simpa using hspares.2)
      | asyncReadMem dst src size => rw [h.1]
      | callVHAsync func => exact congrArg (fun m : Memories => m.ve.read a n) h
      | callAsync | callOpenContext | exitProc => cases hspares

theorem Event.SparesVe.read {a : BitVec 64} {n : Nat} (hspares : e.SparesVe a n)
    (h : e.Sem m m') : m'.ve.read a n = m.ve.read a n := by
  cases e with
  | veStore b bs =>
      cases h
      exact WordMem.read_write_of_disjoint _ hspares
  | vhStore b bs | accepted x =>
      cases h
      rfl
  | ran x r => exact Kind.SparesVe.read hspares h

variable [DecidableEq T] {P : Platform} {D : Driver} {t : VeThread} {m₀ : Memories}
  {d₀ d : DataSys T}

/-- Data that is written to VE memory and read back: if the read succeeds, the program finds in
    the buffer of the read what the buffer of the write held in the state `d₀` in which the write
    was accepted, as long as nothing touches the source until the write is run, the VE memory
    between the two, and the destination after the read. -/
theorem written_data_read_back (h₀ : Reaches (DataSys.step P D) (DataSys.init t m₀) d₀)
    (h : Reaches (DataSys.step P D) d₀ d) {l₁ l₂ l₃ : List (Event T)} {w r : Ticket T}
    {rw rr : CmdResult} {a : BitVec 64} {src dst n : Nat}
    (hlog : d.log = d₀.log ++ ((.accepted w :: l₁) ++ (.ran w rw :: l₂) ++ (.ran r rr :: l₃)))
    (hw : w.kind = .handler (.asyncWriteMem a src n))
    (hr : r.kind = .handler (.asyncReadMem dst a n)) (hok : rr.status = .ok) (hn : n ≤ 2 ^ 64)
    (hsrc : ∀ e ∈ l₁, e.SparesVh src n) (hve : ∀ e ∈ l₂, e.SparesVe a n)
    (hdst : ∀ e ∈ l₃, e.SparesVh dst n) :
    d.mem.vh.read dst n = d₀.mem.vh.read src n := by
  have hall := h₀.trans h
  obtain ⟨l, hl⟩ := DataSys.extends_of_reaches h
  have hevents : l = (.accepted w :: l₁) ++ (.ran w rw :: l₂) ++ (.ran r rr :: l₃) :=
    List.append_cancel_left (hl.log.symm.trans hlog)
  -- the write has succeeded, because a request was run after it
  have hwrite : rw.status = .ok := by
    have hearlier := (DataSys.reachable hall).ranOk.earlier
    rw [hl.ran, hevents] at hearlier
    simp only [List.filterMap_append, List.filterMap_cons, Event.ran?] at hearlier
    rw [List.pairwise_append, List.pairwise_append] at hearlier
    exact hearlier.2.1.2.2 (w, rw) (by simp) (r, rr) (by simp)
  have hreplays := hl.replays
  rw [hevents] at hreplays
  obtain ⟨m₃, h₃, m₃', heffect₃, htrace₃⟩ := trace_append.mp hreplays
  obtain ⟨m₂, h₂, m₂', heffect₂, htrace₂⟩ := trace_append.mp h₃
  obtain ⟨m₁, rfl, htrace₁⟩ := h₂
  simp only [Event.Sem, hw, Kind.Effect] at heffect₂
  simp only [Event.Sem, hr, Kind.Effect] at heffect₃
  calc d.mem.vh.read dst n
      = m₃'.vh.read dst n := htrace₃.frame fun e he _ _ hsem => (hdst e he).read hsem
    _ = m₃.ve.read a n := by
        have hsame := FlatMem.read_write_same m₃.vh dst (m₃.ve.read a n)
        rwa [WordMem.length_read, ← heffect₃.2 hok] at hsame
    _ = m₂'.ve.read a n := htrace₂.frame fun e he _ _ hsem => (hve e he).read hsem
    _ = m₂.vh.read src n := by
        have hlen : (m₂.vh.read src n).length ≤ 2 ^ 64 := by simpa using hn
        have hsame := WordMem.read_write_same m₂.ve a hlen
        rwa [FlatMem.length_read, ← heffect₂.2 hwrite] at hsame
    _ = d₀.mem.vh.read src n := htrace₁.frame fun e he _ _ hsem => (hsrc e he).read hsem

end ReadBack

/-- The write is accepted after the sixth step of the run. -/
theorem written_data_read_back_two :
    let m₀ : Memories := ⟨fun a => BitVec.ofNat 8 a, fun _ => 0⟩
    ∃ d₀ d : DataSys Bool,
      Reaches (DataSys.step linuxPlatform plainDriver) (DataSys.init newThread m₀) d₀ ∧
      Reaches (DataSys.step linuxPlatform plainDriver) d₀ d ∧ d₀.log = [] ∧
      d.mem.vh.read 0x20 4 = [0x10, 0x11, 0x12, 0x13] := by
  intro m₀
  let w : Ticket Bool := ⟨true, 1, 0, .handler (.asyncWriteMem 0x4000 0x10 4)⟩
  let r : Ticket Bool := ⟨false, 1, 1, .handler (.asyncReadMem 0x20 0x4000 4)⟩
  obtain ⟨d₀, h₀, hboth⟩ := exists_reaches (DataSys.step linuxPlatform plainDriver)
    (DataSys.init newThread m₀) (readBackRun.take 6)
    (fun d₀ => decide (d₀.log = []) && decide (d₀.mem.vh.read 0x10 4 = [0x10, 0x11, 0x12, 0x13]) &&
      (runList (DataSys.step linuxPlatform plainDriver) (fun _ _ => true) d₀
        (readBackRun.drop 6)).any fun d : DataSys Bool => decide (d.log = d₀.log ++
          ((.accepted w :: [.accepted r, .vhStore 0x30 [1, 2]]) ++ (.ran w ⟨0, .ok⟩ :: []) ++
            (.ran r ⟨0, .ok⟩ :: [.veStore 0x5000 [7]])))) (by decide +kernel)
  simp only [Bool.and_eq_true, decide_eq_true_eq, Option.any_eq_true] at hboth
  obtain ⟨⟨hempty, hsource⟩, d, hrun, hlog⟩ := hboth
  have h : Reaches (DataSys.step linuxPlatform plainDriver) d₀ d :=
    run_of_runList (fun _ _ _ => trivial) hrun
  have hdata := written_data_read_back h₀ h hlog rfl rfl rfl (by decide) (by simp [Event.SparesVh])
    (by simp) (by simp [Event.SparesVh])
  exact ⟨d₀, d, h₀, h, hempty, hdata.trans hsource⟩

end Veo
