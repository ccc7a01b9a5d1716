-- SUMMARY: Failed transfers of a VE call: the results of the transfers in copyin and copyout are dropped.
import Veo.Handlers

/-!
# Failed transfers of a VE call

`copyin` sends the stack image and `copyout` reads the frame back. Both drop the result of
the transfer, so a call whose image was not sent is started, and a call whose outputs were
not read is reported as successful.
-/

namespace Veo

open Bytes

/-! ## Transfers that fail -/

/-- Some output buffer makes `copyout` read the frame. -/
def SomeReceives (args : List Arg) : Prop := ∃ a ∈ args, a.receives = true

/-- The VE function comes to its block request before any error. -/
def ReturnsToBlock (P : Platform) (env : Env) : Prop :=
  ∃ pre e post, env.events = pre ++ .raised e :: post ∧ (∀ w ∈ pre, w.Quiet P .default) ∧
    e.Terminates P .default ∧ isError P e.exs = false

/-- The write transfer of `copyin` takes place and fails. -/
def SendFails (env : Env) (t : VeThread) : Prop :=
  ∃ ca sp, env.args.setup env.vh t.veSp = .ok (ca, sp) ∧ ca.copiedIn = true ∧
    (env.send ca.stackTop ca.stackBuf env.ve).1 ≠ 0

/-- The read transfer of `copyout` takes place and fails. -/
def RecvFails (P : Platform) (env : Env) (t : VeThread) : Prop :=
  ReturnsToBlock P env ∧ ∃ ca sp, env.args.setup env.vh t.veSp = .ok (ca, sp) ∧
    ca.copiedOut = true ∧ (env.recv env.veStopped ca.stackTop ca.stackSize ca.stackBuf).1 ≠ 0

/-- A failed transfer of the call of `addr` is not reported as success. -/
structure FailuresReported (P : Platform) (addr : BitVec 64) (env : Env) (t : VeThread) :
    Prop where
  /-- The VE function is not started without its stack image. -/
  notStarted : SendFails env t → ∀ s, doCall addr env env.machine t ≠ .ok s
  /-- The status of the request is not OK. -/
  status : SendFails env t ∨ RecvFails P env t →
    ∀ o, Handler.exec P (.callAsync addr) env t = .ok o → o.result.status ≠ .ok
  /-- Every byte of an output buffer is as before, or came from the VE. -/
  buffer : RecvFails P env t → ∀ o, Handler.exec P (.callAsync addr) env t = .ok o →
    ∀ (k : Nat) (b : ArgOnStack), o.args.HasArg k (.onStack b) → b.out_ = true → ∀ i < b.len,
      o.vh (b.buff + i) = env.vh (b.buff + i) ∨
        o.vh (b.buff + i) = env.veStopped (b.vemva + BitVec.ofNat 64 i)

/-- The transfers that a call needs succeed: the write transfer if some argument makes
    `copyin` send the image, and the read transfer if there is an output buffer and the VE
    function comes to its block request. -/
def TransfersSucceed (P : Platform) (env : Env) (t : VeThread) : Prop :=
  ∀ (args : List Arg) (ca : CallArgs) (sp : BitVec 64), env.args.arguments = args.map some →
    env.args.setup env.vh t.veSp = .ok (ca, sp) →
    (SomeSends args → (env.send sp ca.stackBuf env.ve).1 = 0) ∧
    (SomeReceives args → ReturnsToBlock P env →
      (env.recv env.veStopped sp ca.stackSize ca.stackBuf).1 = 0)

section Failures
variable {P : Platform} {addr : BitVec 64} {env : Env} {t : VeThread} {args : List Arg}
  {ca : CallArgs} {sp : BitVec 64}

/-- The frame is read back if there is an output buffer. -/
theorem CallArgs.copiedOut_iff (hset : env.args.arguments = args.map some)
    (hok : env.args.setup env.vh t.veSp = .ok (ca, sp)) :
    ca.copiedOut = true ↔ SomeReceives args := by
  obtain ⟨-, hr⟩ := (CallArgs.setup_ok_iff hset _ _ _).mp hok
  cases hr
  exact List.any_eq_true

/-- A call whose image was not sent is started all the same. -/
theorem doCall_of_sendFails (addr : BitVec 64) (h : SendFails env t) :
    ∃ s, doCall addr env env.machine t = .ok s := by
  obtain ⟨ca, sp, hok, -, -⟩ := h
  obtain ⟨args, hset⟩ := CallArgs.setup_arguments hok
  obtain ⟨s, hs, -, -⟩ := doCall_of_setup addr env.machine hset hok
  exact ⟨s, hs⟩

/-- A call whose outputs were not read is reported as successful. -/
theorem exec_of_recvFails (addr : BitVec 64) (h : RecvFails P env t) :
    ∃ o, Handler.exec P (.callAsync addr) env t = .ok o ∧ o.result.status = .ok := by
  obtain ⟨⟨pre, e, post, hev, hpre, he, herr⟩, ca, sp, hok, -, -⟩ := h
  obtain ⟨args, hset⟩ := CallArgs.setup_arguments hok
  obtain ⟨s, hs, -, -⟩ := doCall_of_setup addr env.machine hset hok
  obtain ⟨o, ho, hresult, -⟩ := callAsync_block hs hev hpre he herr
  exact ⟨o, ho, by rw [hresult]⟩

/-- The transfers that a call needs are the ones that take place. -/
theorem transfersSucceed_iff : TransfersSucceed P env t ↔ ¬ SendFails env t ∧ ¬ RecvFails P env t := by
  constructor
  · intro h
    constructor
    · rintro ⟨ca, sp, hok, hin, hfail⟩
      obtain ⟨args, hset⟩ := CallArgs.setup_arguments hok
      rw [(CallArgs.setup_layout hset hok).top] at hfail
      exact hfail ((h args ca sp hset hok).1 ((CallArgs.copiedIn_iff hset hok).mp hin))
    · rintro ⟨hreturns, ca, sp, hok, hout, hfail⟩
      obtain ⟨args, hset⟩ := CallArgs.setup_arguments hok
      rw [(CallArgs.setup_layout hset hok).top] at hfail
      exact hfail ((h args ca sp hset hok).2 ((CallArgs.copiedOut_iff hset hok).mp hout) hreturns)
  · rintro ⟨hsend, hrecv⟩ args ca sp hset hok
    have htop := (CallArgs.setup_layout hset hok).top
    constructor
    · intro hsome
      by_contra hfail
      rw [← htop] at hfail
      exact hsend ⟨ca, sp, hok, (CallArgs.copiedIn_iff hset hok).mpr hsome, hfail⟩
    · intro hsome hreturns
      by_contra hfail
      rw [← htop] at hfail
      exact hrecv ⟨hreturns, ca, sp, hok, (CallArgs.copiedOut_iff hset hok).mpr hsome, hfail⟩

end Failures

/-- A call reports the failures of its transfers if and only if the transfers it needs
    succeed: no failure is ever reported. -/
theorem failuresReported_iff (P : Platform) (addr : BitVec 64) (env : Env) (t : VeThread) :
    FailuresReported P addr env t ↔ TransfersSucceed P env t := by
  rw [transfersSucceed_iff]
  constructor
  · intro h
    constructor
    · intro hsend
      obtain ⟨s, hs⟩ := doCall_of_sendFails addr hsend
      exact h.notStarted hsend s hs
    · intro hrecv
      obtain ⟨o, ho, hstatus⟩ := exec_of_recvFails addr hrecv
      exact h.status (.inr hrecv) o ho hstatus
  · rintro ⟨hsend, hrecv⟩
    constructor
    case notStarted => exact fun h => absurd h hsend
    case status => exact fun h => absurd h (not_or.mpr ⟨hsend, hrecv⟩)
    case buffer => exact fun h => absurd h hrecv

/-- A driver whose transfers all fail, and a VE function that returns 7. The call passes an
    input buffer and an output buffer. -/
def lossyEnv : Env :=
  { Env.plain [.onStack ⟨0x100, 8, by decide, true, false, 0⟩,
        .onStack ⟨0x200, 4, by decide, false, true, 0⟩]
      [.raised (.blockRequest 7 0x8000)] with
    vh := fun _ => 1
    veStopped := fun _ => 2
    send := fun _ _ ve => (-1, ve)
    recv := fun _ _ _ buf => (-1, buf) }

/-- Both transfers fail, the call is started and reported as successful, and the output
    buffer is overwritten by zeros, which neither the caller nor the VE put there. -/
theorem failures_not_reported :
    let t : VeThread := ⟨.blocked, 0x10000, fun _ => 0, [], []⟩
    SendFails lossyEnv t ∧ RecvFails linuxPlatform lossyEnv t ∧
      (∃ s, doCall 0x1000 lossyEnv lossyEnv.machine t = .ok s) ∧
      (∃ o, Handler.exec linuxPlatform (.callAsync 0x1000) lossyEnv t = .ok o ∧
        o.result = ⟨7, .ok⟩ ∧ o.vh.read 0x200 4 = [0, 0, 0, 0]) ∧
      ¬ FailuresReported linuxPlatform 0x1000 lossyEnv t := by
  intro t
  have hset : lossyEnv.args.arguments = [_, _].map some := rfl
  have hok := (CallArgs.setup_ok_iff hset lossyEnv.vh t.veSp _).mpr ⟨by decide, rfl⟩
  have hsend : SendFails lossyEnv t := ⟨_, _, hok, rfl, by decide⟩
  have hrecv : RecvFails linuxPlatform lossyEnv t :=
    ⟨⟨[], _, [], rfl, by simp, ⟨by decide, .inr (.inl (by decide))⟩, by decide⟩, _, _, hok, rfl,
      by decide⟩
  have hrun : (Handler.exec linuxPlatform (.callAsync 0x1000) lossyEnv t).toOption.map
      (fun o => (o.result, o.vh.read 0x200 4)) = some (⟨7, .ok⟩, [0, 0, 0, 0]) := by
    decide +kernel
  obtain ⟨o, ho, hpair⟩ := Option.map_eq_some_iff.mp hrun
  obtain ⟨hresult, hread⟩ := Prod.mk.inj hpair
  have hexec := Except.toOption_eq_some.mp ho
  refine ⟨hsend, hrecv, doCall_of_sendFails _ hsend, ⟨o, hexec, hresult, hread⟩, fun h => ?_⟩
  exact h.status (.inl hsend) o hexec (by rw [hresult])

end Veo
