-- SUMMARY: Starting a function on the VE thread: registers, stack image, and what the callee can read of its arguments.
import Veo.CallArgs.Transfer
import Veo.Exception.Handler

/-!
# Starting a VE function

`_doCall` builds the stack frame below the recorded stack pointer, sets the registers,
sends the image if an argument asks for it, and unblocks the VE thread.
-/

namespace Veo

open Bytes

/-! ## The environment of a command -/

/-- What one command meets while its handler runs: the contents of the arguments object
    it captured by reference, the memories, the driver functions and their results. -/
structure Env where
  args : CallArgs
  vh : FlatMem
  /-- The user registers of the VE thread. -/
  regs : Nat → BitVec 64
  /-- VE memory before the VE thread runs, and when it stops. -/
  ve : WordMem 64
  veStopped : WordMem 64
  /-- `ve_send_data` and `ve_recv_data`. -/
  send : BitVec 64 → List Byte → WordMem 64 → Int × WordMem 64
  recv : WordMem 64 → BitVec 64 → Nat → List Byte → Int × List Byte
  /-- The results of `vedl_wait_exception`. -/
  events : List WaitResult
  /-- What the VH function returns. -/
  func : BitVec 64
  /-- `sem_init` succeeds. -/
  semInit : Bool
  /-- The result of `ve__do_clone`, and the address of the new context. -/
  clone : Int
  newctx : BitVec 64
  errno : Int
  /-- The value of a local variable that is read without having been set. -/
  indeterminate : Int

/-- An environment with the arguments `args` in which every driver call succeeds and the
    memories are zero. -/
def Env.plain (args : List Arg) (events : List WaitResult) : Env where
  args := ⟨args.map some, 0, 0, [], false, false⟩
  vh := fun _ => 0
  regs := fun _ => 0
  ve := fun _ => 0
  veStopped := fun _ => 0
  send := fun a bs ve => (0, ve.write a bs)
  recv := fun ve a n _ => (0, ve.read a n)
  events := events
  func := 0
  semInit := true
  clone := 1
  newctx := 0
  errno := 0
  indeterminate := 0

/-- The user registers and the memory of the VE. -/
structure Machine where
  regs : Nat → BitVec 64
  ve : WordMem 64

def Env.machine (env : Env) : Machine := { regs := env.regs, ve := env.ve }

/-- `SR11` and `SR12`. -/
def sr11 : Nat := 11
def sr12 : Nat := 12

/-- `ve_set_user_reg`. -/
def Machine.setReg (m : Machine) (r : Nat) (v : BitVec 64) : Machine :=
  { m with regs := Function.update m.regs r v }

/-- A fault of the arguments object stops the handler. -/
def liftFault {α : Type} : Except Fault α → Except Stop α
  | .ok a => .ok a
  | .error f => .error (.fault f)

/-! ## Calls -/

/-- `_unBlock`. -/
def unBlock (sr0 : BitVec 64) (t : VeThread) : VeThread :=
  { t.answer (.unBlock nrSysve sr0) with state := .running }

/-- `_collectReturnValue`: the VE thread stopped at a block request. -/
def collectReturnValue (t : VeThread) : Except Stop (BitVec 64 × VeThread) :=
  if t.sysargs argCode = sysveVeoBlock then
    .ok (t.sysargs argRetval, { t with veSp := t.sysargs argSp })
  else
    .error (.fault .assertion)

/-- The loop that sets the register arguments. -/
def setRegs (m : Machine) : Nat → List (BitVec 64) → Machine
  | _, [] => m
  | i, v :: regs => setRegs (m.setReg i v) (i + 1) regs

/-- What `_doCall` leaves: the arguments object, the VE thread and the VE. -/
structure Started where
  args : CallArgs
  thread : VeThread
  machine : Machine

/-- `_doCall`. -/
def doCall (addr : BitVec 64) (env : Env) (m : Machine) (t : VeThread) : Except Stop Started := do
  let m := m.setReg sr12 addr
  -- the recorded stack pointer is updated in setup
  let (args, veSp) ← liftFault (env.args.setup env.vh t.veSp)
  let regs ← liftFault args.getRegVal
  if regs.length ≤ numArgsOnRegister then
    let m := setRegs m 0 regs
    let m := { m with ve := args.copyin env.send m.ve }
    -- shift the stack pointer as the stack is extended
    let m := m.setReg sr11 veSp
    .ok { args := args, thread := unBlock (regs.headD 0) { t with veSp := veSp }, machine := m }
  else
    .error (.fault .assertion)

theorem liftFault_eq_ok {α : Type} {x : Except Fault α} {a : α} :
    liftFault x = .ok a ↔ x = .ok a := by
  cases x <;> simp [liftFault]

@[simp] theorem setRegs_ve (m : Machine) (i : Nat) (regs : List (BitVec 64)) :
    (setRegs m i regs).ve = m.ve := by
  induction regs generalizing m i with
  | nil => rfl
  | cons v regs ih => exact ih (m.setReg i v) (i + 1)

/-- A started call has set up its arguments, and the recorded stack pointer is lowered by
    the size of the frame. -/
theorem doCall_eq_ok {addr : BitVec 64} {env : Env} {m : Machine} {t : VeThread} {r : Started}
    (h : doCall addr env m t = .ok r) :
    env.args.setup env.vh t.veSp = .ok (r.args, r.thread.veSp) ∧
    r.machine.ve = r.args.copyin env.send m.ve ∧
    (∃ sr0, r.thread = unBlock sr0 { t with veSp := r.thread.veSp }) := by
  obtain ⟨⟨args, sp⟩, hsetup, h₁⟩ := Except.bind_eq_ok.mp h
  obtain ⟨regs, hregs, h₂⟩ := Except.bind_eq_ok.mp h₁
  obtain ⟨-, rfl⟩ := Except.ite_eq_ok.mp h₂
  refine ⟨liftFault_eq_ok.mp hsetup, ?_, _, rfl⟩
  simp [Machine.setReg]

/-- A call starts whenever its arguments can be set up. -/
theorem doCall_of_setup (addr : BitVec 64) {env : Env} (m : Machine) {t : VeThread}
    {args : List Arg} {ca : CallArgs} {sp : BitVec 64}
    (hset : env.args.arguments = args.map some) (hok : env.args.setup env.vh t.veSp = .ok (ca, sp)) :
    ∃ r, doCall addr env m t = .ok r ∧ r.args = ca ∧ r.thread.veSp = sp := by
  obtain ⟨regs, hregs, hlen, -⟩ := (CallArgs.setup_layout hset hok).register
  have hle : regs.length ≤ numArgsOnRegister := hlen ▸ Nat.min_le_right _ _
  have hdo : ∃ r, doCall addr env m t = .ok r := by
    simp only [doCall, liftFault_eq_ok.mpr hok, liftFault_eq_ok.mpr hregs, bind, Except.bind,
      if_pos hle]
    exact ⟨_, rfl⟩
  obtain ⟨r, hr⟩ := hdo
  obtain ⟨hsetup, -, -⟩ := doCall_eq_ok hr
  obtain ⟨hargs, hsp⟩ := Prod.mk.inj (Except.ok.inj (hsetup.symm.trans hok))
  exact ⟨r, hr, hargs, hsp⟩

/-! ## What the callee can read -/

/-- A write transfer to VE memory: when it reports success, the bytes are stored. -/
def Sends (send : BitVec 64 → List Byte → WordMem 64 → Int × WordMem 64) : Prop :=
  ∀ a bs ve, (send a bs ve).1 = 0 → (send a bs ve).2 = ve.write a bs

/-- A read transfer from VE memory: when it reports success, the buffer holds the bytes. -/
def Recvs (recv : WordMem 64 → BitVec 64 → Nat → List Byte → Int × List Byte) : Prop :=
  ∀ ve a n buf, (recv ve a n buf).1 = 0 → (recv ve a n buf).2 = ve.read a n

/-- The VE memory of a started call holds what the callee reads of its arguments: the
    slots of the arguments that are not in registers, and the input buffers. -/
structure Readable (vh : FlatMem) (r : Started) : Prop where
  slot : ∀ (k : Nat) (a : Arg), numArgsOnRegister ≤ k → r.args.HasArg k a →
    r.machine.ve.read (r.thread.veSp + BitVec.ofNat 64 (paramAreaOffset + 8 * k)) 8 =
        slice r.args.stackBuf (paramAreaOffset + 8 * k) 8 ∧
      slice r.args.stackBuf (paramAreaOffset + 8 * k) 8 = a.slot
  buffer : ∀ (k : Nat) (b : ArgOnStack), r.args.HasArg k (.onStack b) → b.in_ = true →
    r.machine.ve.read b.vemva b.len = vh.read b.buff b.len

/-- Some argument makes `copyin` send the image: an integer, a double or a float that is
    not in a register, or an input buffer. -/
def SomeSends (args : List Arg) : Prop := ∃ (j : Nat) (a : Arg), args[j]? = some a ∧ a.sends j = true

/-- Some output buffer is passed in a slot. -/
def SomeOutSlot (args : List Arg) : Prop :=
  ∃ (k : Nat) (a : ArgOnStack), numArgsOnRegister ≤ k ∧ args[k]? = some (.onStack a) ∧ a.in_ = false

section Readable
variable {addr : BitVec 64} {env : Env} {m : Machine} {t : VeThread} {args : List Arg}
  {ca : CallArgs} {sp : BitVec 64} {r : Started}

/-- The image is sent if some argument asks for it. -/
theorem CallArgs.copiedIn_iff (hset : env.args.arguments = args.map some)
    (hok : env.args.setup env.vh t.veSp = .ok (ca, sp)) : ca.copiedIn = true ↔ SomeSends args := by
  obtain ⟨-, hr⟩ := (CallArgs.setup_ok_iff hset _ _ _).mp hok
  cases hr
  simp only [CallArgs.built, List.any_eq_true, SomeSends]
  constructor
  · rintro ⟨⟨a, j⟩, hmem, hsends⟩
    exact ⟨j, a, List.mem_zipIdx_iff_getElem?.mp hmem, hsends⟩
  · rintro ⟨j, a, hj, hsends⟩
    exact ⟨(a, j), List.mem_zipIdx_iff_getElem?.mpr hj, hsends⟩

/-- An image that was sent is all the callee needs. -/
theorem readable_of_sent {vh : FlatMem} {sp₀ : BitVec 64} (ve : WordMem 64)
    (hlayout : CallArgs.Layout vh args sp₀ r.thread.veSp r.args)
    (hve : r.machine.ve = ve.write r.thread.veSp r.args.stackBuf) : Readable vh r := by
  have himg : r.args.stackBuf.length ≤ 2 ^ 64 := by
    rw [hlayout.image]
    exact Nat.le_of_lt hlayout.sizeLt
  constructor
  case slot =>
    intro k a hk ha
    refine ⟨?_, hlayout.slot k a hk ha⟩
    have hlt : k < args.length := by
      rw [← hlayout.numArgs]
      exact (List.getElem?_eq_some_iff.mp ha).1
    have hsize := hlayout.size
    rw [hve]
    exact WordMem.read_write_slice _ _ (by rw [hlayout.image]; omega) himg
  case buffer =>
    intro k b hb hin
    have hfit := (hlayout.inside k b hb).2
    have hcontents := hlayout.contents k b hb
    rw [if_pos hin] at hcontents
    have haddr : b.vemva = r.thread.veSp + BitVec.ofNat 64 (b.offset r.thread.veSp) := by
      rw [ArgOnStack.offset, BitVec.ofNat_toNat, BitVec.setWidth_eq, BitVec.add_comm,
        BitVec.sub_add_cancel]
    rw [hve, ← hcontents, haddr]
    exact WordMem.read_write_slice _ _ (by rw [hlayout.image]; exact hfit) himg

/-- If no argument asks for the image and no output buffer is passed in a slot, the callee
    reads nothing of the image. -/
theorem readable_of_registers {vh : FlatMem} {sp₀ sp : BitVec 64}
    (hlayout : CallArgs.Layout vh args sp₀ sp r.args) (hnone : ¬ SomeSends args)
    (hout : ¬ SomeOutSlot args) : Readable vh r := by
  have harg {k : Nat} {x : Arg} (hx : r.args.HasArg k x) :
      ∃ a addr, args[k]? = some a ∧ x = a.place addr := by
    have hlt : k < args.length := by
      rw [← hlayout.numArgs]
      exact (List.getElem?_eq_some_iff.mp hx).1
    obtain ⟨addr, haddr⟩ := hlayout.argument k _ (List.getElem?_eq_getElem hlt)
    refine ⟨args[k], addr, List.getElem?_eq_getElem hlt, ?_⟩
    have heq := hx.symm.trans haddr
    simpa using heq
  constructor
  case slot =>
    intro k x hk hx
    obtain ⟨a, addr, ha, rfl⟩ := harg hx
    cases a with
    | onStack a =>
        cases hin : a.in_ with
        | true => exact absurd ⟨k, _, ha, hin⟩ hnone
        | false => exact absurd ⟨k, a, hk, ha, hin⟩ hout
    | int T v | double bits | float bits =>
        exact absurd ⟨k, _, ha, by simpa [Arg.sends] using hk⟩ hnone
  case buffer =>
    intro k b hb hin
    obtain ⟨a, addr, ha, hplace⟩ := harg hb
    cases a with
    | onStack a =>
        cases hplace
        exact absurd ⟨k, _, ha, hin⟩ hnone
    | int T v | double bits | float bits => cases hplace

/-- The callee finds no address of an output buffer in a memory that differs from the
    first byte of the address everywhere. -/
theorem not_readable_of_slot {vh : FlatMem} {k : Nat} {b : ArgOnStack}
    (hk : numArgsOnRegister ≤ k) (hb : r.args.HasArg k (.onStack b))
    (hve : ∀ x, r.machine.ve x ≠ BitVec.ofNat 8 b.vemva.toNat) : ¬ Readable vh r := by
  intro hread
  obtain ⟨hslot, himage⟩ := hread.slot k _ hk hb
  rw [himage] at hslot
  have hhead := congrArg (·[0]?) hslot
  simp only [WordMem.getElem?_read _ (show 0 < 8 by decide), Arg.slot] at hhead
  exact hve _ (Option.some.inj hhead)

/-- The callee can read all its arguments, whatever the VE memory was before the call, if
    and only if some argument makes `copyin` send the image or no output buffer is passed
    in a slot. -/
theorem doCall_readable_iff (addr : BitVec 64) (m : Machine)
    (hset : env.args.arguments = args.map some)
    (hok : env.args.setup env.vh t.veSp = .ok (ca, sp)) (hsend : Sends env.send)
    (hzero : ∀ ve, (env.send ca.stackTop ca.stackBuf ve).1 = 0) :
    (∀ ve, ∃ r, doCall addr env { m with ve := ve } t = .ok r ∧ Readable env.vh r) ↔
      (SomeOutSlot args → SomeSends args) := by
  have hlayout := CallArgs.setup_layout hset hok
  have hcopied := CallArgs.copiedIn_iff hset hok
  constructor
  · rintro hread ⟨k, a, hk, ha, -⟩
    by_contra hnone
    obtain ⟨va, hva⟩ := hlayout.argument k _ ha
    -- a memory that differs from the first byte of the address everywhere
    obtain ⟨r, hr, hreadable⟩ := hread fun _ => BitVec.ofNat 8 va.toNat + 1
    obtain ⟨hsetup, hve, -⟩ := doCall_eq_ok hr
    obtain ⟨rfl, rfl⟩ := Prod.mk.inj (Except.ok.inj (hok.symm.trans hsetup))
    have hskip : r.machine.ve = fun _ => BitVec.ofNat 8 va.toNat + 1 := by
      rw [hve, CallArgs.copyin, if_neg (fun h => hnone (hcopied.mp h))]
    exact not_readable_of_slot hk hva (by simp [hskip]) hreadable
  · intro hcond ve
    obtain ⟨r, hr, hargs, hsp⟩ := doCall_of_setup addr { m with ve := ve } hset hok
    obtain ⟨-, hve, -⟩ := doCall_eq_ok hr
    refine ⟨r, hr, ?_⟩
    rw [← hargs, ← hsp] at hlayout
    by_cases hsent : SomeSends args
    · apply readable_of_sent ve hlayout
      rw [hve, CallArgs.copyin, hargs, if_pos (hcopied.mpr hsent), hsend _ _ _ (hzero ve),
        ← hargs, hlayout.top]
    · exact readable_of_registers hlayout hsent fun h => hsent (hcond h)

/-- An input buffer makes `copyin` send the address of the output buffer in slot 8. -/
theorem doCall_readable_in_out :
    let args : List Arg := List.replicate 8 (.double 0) ++
      [.onStack ⟨0x100, 12, by decide, false, true, 0⟩,
       .onStack ⟨0x200, 5, by decide, true, false, 0⟩]
    let env := Env.plain args []
    let t : VeThread := ⟨.blocked, 0x10000, fun _ => 0, [], []⟩
    ∀ ve, ∃ r, doCall 0x1000 env ⟨fun _ => 0, ve⟩ t = .ok r ∧ Readable env.vh r := by
  intro args env t
  have hset : env.args.arguments = args.map some := rfl
  have hok := (CallArgs.setup_ok_iff hset env.vh t.veSp _).mpr ⟨by decide, rfl⟩
  refine (doCall_readable_iff 0x1000 ⟨fun _ => 0, env.ve⟩ hset hok (fun _ _ _ _ => rfl)
    (fun _ => rfl)).mpr fun _ => ?_
  exact ⟨9, _, rfl, rfl⟩

/-- Eight integers in registers and an output buffer in a slot: the image is not sent, and
    the callee does not find the address of the buffer. -/
theorem doCall_out_slot_unreadable :
    let args : List Arg :=
      List.replicate 8 (.int .int64 0) ++ [.onStack ⟨0x100, 8, by decide, false, true, 0⟩]
    let env := Env.plain args []
    let t : VeThread := ⟨.blocked, 0x10000, fun _ => 0, [], []⟩
    ∃ r, doCall 0x1000 env ⟨fun _ => 0, env.ve⟩ t = .ok r ∧
      (∀ a bs ve, env.send a bs ve = (0, ve.write a bs)) ∧ ¬ Readable env.vh r := by
  intro args env t
  have hset : env.args.arguments = args.map some := rfl
  have hok := (CallArgs.setup_ok_iff hset env.vh t.veSp _).mpr ⟨by decide, rfl⟩
  obtain ⟨r, hr, hargs, -⟩ := doCall_of_setup 0x1000 ⟨fun _ => 0, env.ve⟩ hset hok
  obtain ⟨-, hve, -⟩ := doCall_eq_ok hr
  have hskip : r.machine.ve = fun _ => 0 := by
    rw [hve, CallArgs.copyin, hargs]
    rfl
  refine ⟨r, hr, fun _ _ _ => rfl, ?_⟩
  have hb : (CallArgs.built env.vh (t.veSp - BitVec.ofNat 64 (Frame.size args)) args).HasArg 8 _ :=
    CallArgs.built_argument.mpr ⟨_, rfl, rfl⟩
  rw [← hargs] at hb
  refine not_readable_of_slot (Nat.le_refl 8) hb fun x => ?_
  have hbyte : r.machine.ve x = 0 := by rw [hskip]
  rw [hbyte]
  decide

end Readable

end Veo
