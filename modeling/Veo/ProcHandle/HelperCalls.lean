-- SUMMARY: The calls of the helper functions: how ProcHandle passes their arguments, and what the VE thread finds when it enters them.
import Veo.CallArgs.Reuse
import Veo.CallArgs.Words
import Veo.ProcHandle.LoadError

/-!
# Calling the helper functions

The functions of `ProcHandle` call helper functions in the VE process. They pass numbers in
registers, and strings and records by reference through the stack of the VE thread. What counts
is what the VE thread finds in its registers and in its memory when it enters the function.
-/

namespace Veo

open Bytes

/-! ## Entering a VE function -/

theorem setRegs_regs (m : Machine) (regs : List (BitVec 64)) (i k : Nat) :
    (setRegs m i regs).regs k = if i ≤ k then (regs[k - i]?).getD (m.regs k) else m.regs k := by
  induction regs generalizing m i with
  | nil => simp [setRegs]
  | cons v regs ih =>
      rw [setRegs, ih]
      rcases Nat.lt_trichotomy i k with hlt | rfl | hgt
      · have hsub : k - i = (k - (i + 1)) + 1 := by omega
        have hne : k ≠ i := by omega
        rw [if_pos (by omega), if_pos (by omega), hsub, List.getElem?_cons_succ]
        simp [Machine.setReg, hne]
      · simp [Machine.setReg]
      · have hne : k ≠ i := by omega
        rw [if_neg (by omega), if_neg (by omega)]
        simp [Machine.setReg, hne]

/-- What the VE thread finds when it enters the function at `addr`, with the arguments `args`. -/
structure Entered (addr : BitVec 64) (vh : FlatMem) (args : List Arg) (s : Started) : Prop where
  func : s.machine.regs sr12 = addr
  stack : s.machine.regs sr11 = s.thread.veSp
  register : ∀ (k : Nat) (a : Arg), k < numArgsOnRegister → args[k]? = some a →
    a.isScalar = true → s.machine.regs k = a.getRegVal
  buffer : ∀ (k : Nat) (a : ArgOnStack), k < numArgsOnRegister → args[k]? = some (.onStack a) →
    a.in_ = true → s.machine.ve.read (s.machine.regs k) a.len = vh.read a.buff a.len

section Entered
variable {m : Machine} {args : List Arg}

/-- The image that `copyin` sends holds the input buffers. -/
theorem read_built {k : Nat} {a : ArgOnStack} (vh : FlatMem) (sp : BitVec 64) (ve : WordMem 64)
    (hsmall : Frame.size args < 2 ^ 31) (ha : args[k]? = some (.onStack a)) (hin : a.in_ = true) :
    (ve.write sp (CallArgs.built vh sp args).stackBuf).read
      (sp + BitVec.ofNat 64 (Frame.offset args k)) a.len = vh.read a.buff a.len := by
  have hlength : (CallArgs.built vh sp args).stackBuf.length = Frame.size args := by
    simp [CallArgs.built, Frame.length_bytes, Frame.size]
  have hfit : Frame.offset args k + a.len ≤ Frame.size args := by
    have hle := Frame.offset_add_le_size ha
    have hround := le_roundUp a.len
    simp only [Arg.dataSize] at hle
    omega
  have hregion := Frame.slice_region vh (Frame.getElem?_place sp (Frame.dataStart args) ha)
  rw [Frame.offset_place, Arg.dataSize_place, Arg.region_place] at hregion
  rw [WordMem.read_write_slice ve sp (by rw [hlength]; exact hfit) (by rw [hlength]; omega),
    ← take_slice _ (le_roundUp a.len)]
  simp only [CallArgs.built]
  rw [show roundUp a.len = (Arg.onStack a).dataSize from rfl, hregion]
  simp [Arg.region, hin]

/-- A call starts if its frame is small enough, and if the transfer succeeds the VE thread finds
    its arguments. -/
theorem doCall_entered (addr : BitVec 64) (env : Env) (t : VeThread)
    (hset : env.args.arguments = args.map some) (hsmall : Frame.size args < 2 ^ 31)
    (hsend : Sends env.send)
    (hzero : ∀ ca sp, env.args.setup env.vh t.veSp = .ok (ca, sp) → ca.copiedIn = true →
      (env.send ca.stackTop ca.stackBuf m.ve).1 = 0) :
    ∃ s, doCall addr env m t = .ok s ∧ Entered addr env.vh args s := by
  set sp := t.veSp - BitVec.ofNat 64 (Frame.size args)
  have hsetup : env.args.setup env.vh t.veSp = .ok (CallArgs.built env.vh sp args, sp) :=
    (CallArgs.setup_ok_iff hset env.vh t.veSp _).mpr ⟨hsmall, rfl⟩
  set regs := ((Frame.place sp (Frame.dataStart args) args).take numArgsOnRegister).map Arg.getRegVal
    with hregsDef
  have hregs : (CallArgs.built env.vh sp args).getRegVal = .ok regs := CallArgs.built_getRegVal
  have hlength : regs.length ≤ numArgsOnRegister := by
    rw [hregsDef, List.length_map]
    exact List.length_take_le _ _
  -- the word of an argument that is passed in a register
  have hword (k : Nat) (a : Arg) (hk : k < numArgsOnRegister) (ha : args[k]? = some a) :
      regs[k]? = some (a.place (sp + BitVec.ofNat 64 (Frame.offset args k))).getRegVal := by
    rw [hregsDef, List.getElem?_map, List.getElem?_take_of_lt hk, Frame.getElem?_place sp _ ha]
    rfl
  refine ⟨_, by simp only [doCall, liftFault_eq_ok.mpr hsetup, liftFault_eq_ok.mpr hregs, bind,
    Except.bind, if_pos hlength]; rfl, ?_⟩
  have hregister (k : Nat) (a : Arg) (hk : k < numArgsOnRegister) (ha : args[k]? = some a) :
      (setRegs (m.setReg sr12 addr) 0 regs).regs k =
        (a.place (sp + BitVec.ofNat 64 (Frame.offset args k))).getRegVal := by
    rw [setRegs_regs, if_pos (Nat.zero_le k), Nat.sub_zero, hword k a hk ha]
    rfl
  have hother (k : Nat) (hk : k < numArgsOnRegister) : k ≠ sr11 := by
    unfold numArgsOnRegister at hk
    unfold sr11
    omega
  constructor
  case func =>
    have hnone : regs[12]? = none := List.getElem?_eq_none (by
      unfold numArgsOnRegister at hlength
      omega)
    simp [Machine.setReg, setRegs_regs, hnone, sr11, sr12]
  case stack => simp [Machine.setReg, unBlock, VeThread.answer]
  case register =>
    intro k a hk ha hscalar
    have hreg := hregister k a hk ha
    rw [Arg.place_of_isScalar hscalar] at hreg
    simpa [Machine.setReg, hother k hk] using hreg
  case buffer =>
    intro k a hk ha hin
    have hreg := hregister k _ hk ha
    have hcopied : (CallArgs.built env.vh sp args).copiedIn = true :=
      List.any_eq_true.mpr ⟨(_, k), List.mem_zipIdx_iff_getElem?.mpr ha, hin⟩
    have hve : (CallArgs.built env.vh sp args).copyin env.send m.ve =
        m.ve.write sp (CallArgs.built env.vh sp args).stackBuf := by
      rw [CallArgs.copyin, if_pos hcopied]
      exact hsend _ _ _ (hzero _ _ hsetup hcopied)
    have hread := read_built env.vh sp m.ve hsmall ha hin
    simp only [Machine.setReg, Arg.place, Arg.getRegVal] at hreg
    simpa [Machine.setReg, hother k hk, hreg, hve] using hread

end Entered

/-! ## Strings and records -/

/-- A string in the memory of the program: its address, and its bytes without the zero at its
    end. -/
structure CString (vh : FlatMem) where
  addr : Nat
  text : List Byte
  stored : vh.read addr (text.length + 1) = text ++ [0]
  nonzero : 0 ∉ text

/-- What `veorun.h` says of `veo__thread_attribute_ver3`: its size, and where its members are. -/
structure AttributeVer3 where
  size : Nat
  cpu : Nat
  stackSz : Nat
  cpuFits : cpu + 4 ≤ size
  stackSzFits : stackSz + 8 ≤ size
  disjoint : cpu + 4 ≤ stackSz ∨ stackSz + 8 ≤ cpu
  /-- A frame with the record stays far below 2 GiB. -/
  sizeLt : size < 2 ^ 30

/-- An `int` and a `size_t`. -/
def sampleAttribute : AttributeVer3 :=
  ⟨16, 0, 8, by decide, by decide, by decide, by decide⟩

/-- A record of this type in the memory of the program. -/
structure ThreadAttribute (A : AttributeVer3) (vh : FlatMem) where
  addr : Nat
  cpu : BitVec 32
  stackSz : BitVec 64
  cpuStored : vh.read (addr + A.cpu) 4 = ofNatLE 4 cpu.toNat
  stackSzStored : vh.read (addr + A.stackSz) 8 = ofNatLE 8 stackSz.toNat

theorem ThreadAttribute.read_back {A : AttributeVer3} {vh : FlatMem} (r : ThreadAttribute A vh) :
    toNatLE (slice (vh.read r.addr A.size) A.cpu 4) = r.cpu.toNat ∧
      toNatLE (slice (vh.read r.addr A.size) A.stackSz 8) = r.stackSz.toNat := by
  rw [FlatMem.slice_read vh r.addr A.cpuFits, FlatMem.slice_read vh r.addr A.stackSzFits, r.cpuStored,
    r.stackSzStored, toNatLE_ofNatLE, toNatLE_ofNatLE]
  exact ⟨Nat.mod_eq_of_lt r.cpu.isLt, Nat.mod_eq_of_lt r.stackSz.isLt⟩

/-! ## The arguments of the helper functions -/

/-- What the members that the constructor of `CallArgs` does not set hold, and the one that the
    constructor of `ArgOnStack` does not set. -/
structure Unset where
  stackTop : BitVec 64
  stackSize : Nat
  stackBuf : List Byte
  copiedIn : Bool
  copiedOut : Bool
  vemva : BitVec 64

/-- A new arguments object. -/
def Unset.new (u : Unset) : CallArgs :=
  ⟨[], u.stackTop, u.stackSize, u.stackBuf, u.copiedIn, u.copiedOut⟩

/-- `push_`, for the values that the constructor with a list takes. -/
def CallArgs.push (ca : CallArgs) (val : BitVec 64) : CallArgs :=
  { ca with arguments := ca.arguments ++ [some (.int .int64 val)] }

namespace Errno

def einval : Int := 22
def enametoolong : Int := 36
def enosys : Int := 38

end Errno

/-- The calls of the helper functions, with what the callers pass to them. -/
inductive HelperCall (A : AttributeVer3) (vh : FlatMem) where
  | loadLibrary (libname : CString vh)
  | getSym (libhdl : BitVec 64) (symname : CString vh)
  | allocBuff (size : BitVec 64)
  | freeBuff (buff : BitVec 64)
  | loadLibraryErr (buff : BitVec 64)
  | createThread (cpu : BitVec 32)
  | createThreadWithAttr (attr : ThreadAttribute A vh)
  | exitProc

namespace HelperCall

variable {A : AttributeVer3} {vh : FlatMem}

/-- The arguments object of the call. -/
def args (u : Unset) : HelperCall A vh → Except Stop CallArgs
  | .loadLibrary libname =>
    if h : symnameLenMax < libname.text.length then
      .error (.thrown "Too long name" Errno.enametoolong)
    else
      liftFault (u.new.setOnStack .in_ 0 libname.addr (libname.text.length + 1)
        (by unfold symnameLenMax at h; omega) u.vemva)
  | .getSym libhdl symname =>
    if h : symnameLenMax < symname.text.length then
      .error (.thrown "Too long name" Errno.enametoolong)
    else
      liftFault do
        let ca ← u.new.set_ 0 (.int .uint64 libhdl)
        ca.setOnStack .in_ 1 symname.addr (symname.text.length + 1)
          (by unfold symnameLenMax at h; omega) u.vemva
  | .allocBuff size => .ok (u.new.push size)
  | .freeBuff buff => .ok (u.new.push buff)
  | .loadLibraryErr buff =>
    liftFault do
      let ca ← u.new.set_ 0 (.int .uint64 buff)
      ca.set_ 1 (.int .int32 (BitVec.ofNat 32 errMsgLen))
  | .createThread cpu => liftFault (u.new.set_ 0 (.int .int32 cpu))
  | .createThreadWithAttr attr =>
    liftFault (u.new.setOnStack .in_ 0 attr.addr A.size (by have := A.sizeLt; omega) u.vemva)
  | .exitProc => .ok u.new

/-- The names of the call are short enough. -/
def Short : HelperCall A vh → Prop
  | .loadLibrary name | .getSym _ name => name.text.length ≤ symnameLenMax
  | .allocBuff _ | .freeBuff _ | .loadLibraryErr _ | .createThread _ | .createThreadWithAttr _
  | .exitProc => True

/-- The helper function finds what the caller passed: a number in its register, and a string or
    record where its register points to. -/
def Received (m : Machine) : HelperCall A vh → Prop
  | .loadLibrary libname =>
    m.ve.read (m.regs 0) (libname.text.length + 1) = libname.text ++ [0]
  | .getSym libhdl symname =>
    m.regs 0 = libhdl ∧ m.ve.read (m.regs 1) (symname.text.length + 1) = symname.text ++ [0]
  | .allocBuff size => m.regs 0 = size
  | .freeBuff buff => m.regs 0 = buff
  | .loadLibraryErr buff => m.regs 0 = buff ∧ m.regs 1 = BitVec.ofNat 64 errMsgLen
  | .createThread cpu => (m.regs 0).toInt = cpu.toInt
  | .createThreadWithAttr attr =>
    let record := m.ve.read (m.regs 0) A.size
    toNatLE (slice record A.cpu 4) = attr.cpu.toNat ∧
      toNatLE (slice record A.stackSz 8) = attr.stackSz.toNat
  | .exitProc => True

section Arguments
variable (u : Unset) (a b : Arg)

theorem set_one : u.new.setSlot 0 a = .ok (u.new.put 0 a) :=
  CallArgs.setSlot_eq_ok.mpr ⟨⟨by decide, by decide⟩, rfl⟩

theorem set_two : (do let ca ← u.new.setSlot 0 a; ca.setSlot 1 b) =
    .ok ((u.new.put 0 a).put 1 b) :=
  Except.bind_eq_ok.mpr ⟨_, set_one u a, CallArgs.setSlot_eq_ok.mpr ⟨⟨by decide, by decide⟩, rfl⟩⟩

theorem size_one : Frame.size [a] = 184 + a.dataSize := by
  simp [Frame.size, Frame.dataSize, paramAreaOffset]

theorem size_two : Frame.size [a, b] = 192 + (a.dataSize + b.dataSize) := by
  simp [Frame.size, Frame.dataSize, paramAreaOffset]

end Arguments

/-- A call whose names are short has its arguments object, and the VE thread that enters the
    function with these arguments receives what was passed. -/
theorem args_of_short (u : Unset) {c : HelperCall A vh} (hshort : c.Short) :
    ∃ ca args, c.args u = .ok ca ∧ ca.arguments = args.map some ∧ Frame.size args < 2 ^ 31 ∧
      ∀ addr s, Entered addr vh args s → c.Received s.machine := by
  cases c with
  | loadLibrary libname =>
      have hle : libname.text.length ≤ 255 := hshort
      let a : ArgOnStack := ⟨libname.addr, libname.text.length + 1, by omega, true, false, u.vemva⟩
      refine ⟨u.new.put 0 (.onStack a), [.onStack a], ?_, rfl, ?_, fun addr s h => ?_⟩
      · rw [args, dif_neg (Nat.not_lt.mpr hshort)]
        exact liftFault_eq_ok.mpr (set_one u _)
      · simp only [size_one, Arg.dataSize, roundUp, a]
        omega
      · exact (h.buffer 0 a (by decide) rfl rfl).trans libname.stored
  | getSym libhdl symname =>
      have hle : symname.text.length ≤ 255 := hshort
      let a : ArgOnStack := ⟨symname.addr, symname.text.length + 1, by omega, true, false, u.vemva⟩
      refine ⟨(u.new.put 0 (.int .uint64 libhdl)).put 1 (.onStack a),
        [.int .uint64 libhdl, .onStack a], ?_, rfl, ?_, fun addr s h => ⟨?_, ?_⟩⟩
      · rw [args, dif_neg (Nat.not_lt.mpr hshort)]
        exact liftFault_eq_ok.mpr (set_two u _ _)
      · simp only [size_two, Arg.dataSize, roundUp, a]
        omega
      · exact (h.register 0 _ (by decide) rfl rfl).trans (BitVec.setWidth_eq libhdl)
      · exact (h.buffer 1 a (by decide) rfl rfl).trans symname.stored
  | allocBuff value | freeBuff value =>
      refine ⟨u.new.push value, [.int .int64 value], rfl, rfl, ?_, fun addr s h => ?_⟩
      · simp [size_one, Arg.dataSize]
      · exact (h.register 0 _ (by decide) rfl rfl).trans (BitVec.signExtend_eq value)
  | loadLibraryErr buff =>
      let size : Arg := .int .int32 (BitVec.ofNat 32 errMsgLen)
      refine ⟨(u.new.put 0 (.int .uint64 buff)).put 1 size, [.int .uint64 buff, size],
        liftFault_eq_ok.mpr (set_two u _ _), rfl, ?_, fun addr s h => ⟨?_, ?_⟩⟩
      · simp [size_two, Arg.dataSize, size]
      · exact (h.register 0 _ (by decide) rfl rfl).trans (BitVec.setWidth_eq buff)
      · exact (h.register 1 size (by decide) rfl rfl).trans (by decide)
  | createThread cpu =>
      refine ⟨u.new.put 0 (.int .int32 cpu), [.int .int32 cpu], liftFault_eq_ok.mpr (set_one u _),
        rfl, ?_, fun addr s h => ?_⟩
      · simp [size_one, Arg.dataSize]
      · rw [Received, h.register 0 _ (by decide) rfl rfl]
        exact BitVec.toInt_signExtend_of_le (by decide)
  | createThreadWithAttr attr =>
      have hlt := A.sizeLt
      let a : ArgOnStack := ⟨attr.addr, A.size, by omega, true, false, u.vemva⟩
      refine ⟨u.new.put 0 (.onStack a), [.onStack a], liftFault_eq_ok.mpr (set_one u _), rfl, ?_,
        fun addr s h => ?_⟩
      · simp only [size_one, Arg.dataSize, roundUp, a]
        omega
      · have hrecord : s.machine.ve.read (s.machine.regs 0) A.size = vh.read attr.addr A.size :=
          h.buffer 0 a (by decide) rfl rfl
        rw [Received, hrecord]
        exact attr.read_back
  | exitProc => exact ⟨u.new, [], rfl, rfl, by decide, fun _ _ _ => trivial⟩

/-- A call with a long name is refused before anything is passed. -/
theorem args_of_not_short (u : Unset) {c : HelperCall A vh} (hlong : ¬ c.Short) :
    c.args u = .error (.thrown "Too long name" Errno.enametoolong) := by
  cases c with
  | loadLibrary name | getSym _ name => exact dif_pos (Nat.not_le.mp hlong)
  | _ => exact absurd trivial hlong

/-- Whatever a caller passes to a helper function, the VE thread that enters the function finds it
    in its registers and its memory if the transfer succeeds; only names that are too long are
    refused. -/
theorem helper_receives {env : Env} {m : Machine} (c : HelperCall A env.vh) (u : Unset)
    (addr : BitVec 64) (t : VeThread) (hsend : Sends env.send)
    (hzero : ∀ a bs, (env.send a bs m.ve).1 = 0) :
    (c.Short ∧ ∃ ca s, c.args u = .ok ca ∧ doCall addr { env with args := ca } m t = .ok s ∧
      s.machine.regs sr12 = addr ∧ s.machine.regs sr11 = s.thread.veSp ∧ c.Received s.machine) ∨
    (¬ c.Short ∧ c.args u = .error (.thrown "Too long name" Errno.enametoolong)) := by
  by_cases hshort : c.Short
  case pos =>
    obtain ⟨ca, args, hargs, hset, hsmall, hreceived⟩ := args_of_short u hshort
    obtain ⟨s, hdo, hentered⟩ :=
      doCall_entered addr { env with args := ca } t hset hsmall hsend fun _ _ _ _ => hzero _ _
    exact .inl ⟨hshort, ca, s, hargs, hdo, hentered.func, hentered.stack, hreceived addr s hentered⟩
  case neg => exact .inr ⟨hshort, args_of_not_short u hshort⟩

/-- The symbol `f` of a library is looked up. -/
theorem helper_receives_getSym :
    let env : Env := { Env.plain [] [] with vh := fun a => if a = 0x200 then 0x66 else 0 }
    let name : CString env.vh := ⟨0x200, [0x66], by decide, by decide⟩
    ∃ ca s, (getSym (A := sampleAttribute) 5 name).args ⟨0, 0, [], false, false, 0⟩ = .ok ca ∧
      doCall 0x1000 { env with args := ca } env.machine ⟨.blocked, 0x10000, fun _ => 0, [], []⟩ =
        .ok s ∧
      s.machine.regs 0 = 5 ∧ s.machine.ve.read (s.machine.regs 1) 2 = [0x66, 0] := by
  intro env name
  rcases helper_receives (m := env.machine) (.getSym (A := sampleAttribute) 5 name)
    ⟨0, 0, [], false, false, 0⟩ 0x1000 ⟨.blocked, 0x10000, fun _ => 0, [], []⟩
    (fun _ _ _ _ => rfl) (fun _ _ => rfl) with ⟨-, ca, s, hargs, hdo, -, -, hreceived⟩ | ⟨hlong, -⟩
  · exact ⟨ca, s, hargs, hdo, hreceived⟩
  · exact absurd (by decide : (1 : Nat) ≤ 255) hlong

end HelperCall

end Veo
