-- SUMMARY: The C functions that set an argument: when they return, and what they do to the other arguments.
import Veo.CallArgs.Reuse

/-!
# The setters of the C interface

`veo_args_set_i64` and its siblings call `CallArgs::set`, and `veo_args_set_stack` calls
`CallArgs::setOnStack`. Each returns -1 if a `VEOException` reaches it. The vector and the
allocator throw exceptions of the standard library, which none of them catches.
-/

namespace Veo

/-! ## The functions -/

/-- What can leave the body of a setter. -/
inductive Thrown where
  | veoException
  | badAlloc
  | fault (f : Fault)
deriving DecidableEq, Repr

/-- The memory that a setter meets: whether the vector has, or can be given, storage for a number
    of slots, and whether an argument can be allocated. -/
structure Heap where
  slots : Nat → Bool
  object : Bool

/-- A function on the arguments object. What it did before it throws remains done. -/
abbrev ArgsM := EStateM Thrown CallArgs

namespace ArgsM

def lift {α : Type} : Except Fault α → ArgsM α
  | .ok a => pure a
  | .error f => throw (.fault f)

/-- An allocation. -/
def alloc (available : Bool) : ArgsM Unit :=
  if available then pure () else throw .badAlloc

/-- The `try` block of the setters. -/
def returning (body : ArgsM Unit) : ArgsM Int :=
  tryCatch (do body; return 0) fun
    | .veoException => return -1
    | e => throw e

end ArgsM

namespace CallArgs

open ArgsM

/-- Extend the vector to `n` slots if it is shorter. -/
def reserve (heap : Heap) (n : Nat) : ArgsM Unit := do
  let ca ← get
  if ca.arguments.length < n then
    let arguments ← lift (resize ca.arguments n)
    alloc (heap.slots n)
    set { ca with arguments := arguments }
  else
    return

/-- The assignment to a slot of the vector. -/
def assign (argnum : Int) (a : Arg) : ArgsM Unit :=
  if 0 ≤ argnum then
    modify fun ca => { ca with arguments := ca.arguments.set argnum.toNat (some a) }
  else
    throw (.fault .outOfRange)

/-- The common body of `set_` and `setOnStack` with its allocations. -/
def setArg (heap : Heap) (argnum : Int) (a : Arg) : ArgsM Unit := do
  let n ← lift (checkInt (argnum + 1))
  reserve heap (toSizeT n)
  alloc heap.object
  assign argnum a

end CallArgs

section Functions
variable (heap : Heap) (argnum : Int)

def veoArgsSet_ (val : Scalar) : ArgsM Int :=
  ArgsM.returning (CallArgs.setArg heap argnum val.toArg)

def veoArgsSetI64 (val : BitVec 64) : ArgsM Int := veoArgsSet_ heap argnum (.int .int64 val)
def veoArgsSetU64 (val : BitVec 64) : ArgsM Int := veoArgsSet_ heap argnum (.int .uint64 val)
def veoArgsSetI32 (val : BitVec 32) : ArgsM Int := veoArgsSet_ heap argnum (.int .int32 val)
def veoArgsSetU32 (val : BitVec 32) : ArgsM Int := veoArgsSet_ heap argnum (.int .uint32 val)
def veoArgsSetI16 (val : BitVec 16) : ArgsM Int := veoArgsSet_ heap argnum (.int .int16 val)
def veoArgsSetU16 (val : BitVec 16) : ArgsM Int := veoArgsSet_ heap argnum (.int .uint16 val)
def veoArgsSetI8 (val : BitVec 8) : ArgsM Int := veoArgsSet_ heap argnum (.int .int8 val)
def veoArgsSetU8 (val : BitVec 8) : ArgsM Int := veoArgsSet_ heap argnum (.int .uint8 val)
def veoArgsSetDouble (val : BitVec 64) : ArgsM Int := veoArgsSet_ heap argnum (.double val)
def veoArgsSetFloat (val : BitVec 32) : ArgsM Int := veoArgsSet_ heap argnum (.float val)

/-- `veo_args_set_stack`. The constructor of `ArgOnStack` does not set `vemva`. -/
def veoArgsSetStack (intent : Intent) (buff len : Nat) (lenLt : len < 2 ^ 64)
    (vemva : BitVec 64) : ArgsM Int :=
  ArgsM.returning (CallArgs.setArg heap argnum
    (.onStack ⟨buff, len, lenLt, intent.copiedIn, intent.copiedOut, vemva⟩))

end Functions

/-- A call of a setter, the argument number apart. -/
inductive Setter where
  | i64 (val : BitVec 64)
  | u64 (val : BitVec 64)
  | i32 (val : BitVec 32)
  | u32 (val : BitVec 32)
  | i16 (val : BitVec 16)
  | u16 (val : BitVec 16)
  | i8 (val : BitVec 8)
  | u8 (val : BitVec 8)
  | double (val : BitVec 64)
  | float (val : BitVec 32)
  | stack (intent : Intent) (buff len : Nat) (lenLt : len < 2 ^ 64) (vemva : BitVec 64)

namespace Setter

def call (heap : Heap) (argnum : Int) : Setter → ArgsM Int
  | .i64 val => veoArgsSetI64 heap argnum val
  | .u64 val => veoArgsSetU64 heap argnum val
  | .i32 val => veoArgsSetI32 heap argnum val
  | .u32 val => veoArgsSetU32 heap argnum val
  | .i16 val => veoArgsSetI16 heap argnum val
  | .u16 val => veoArgsSetU16 heap argnum val
  | .i8 val => veoArgsSetI8 heap argnum val
  | .u8 val => veoArgsSetU8 heap argnum val
  | .double val => veoArgsSetDouble heap argnum val
  | .float val => veoArgsSetFloat heap argnum val
  | .stack intent buff len lenLt vemva => veoArgsSetStack heap argnum intent buff len lenLt vemva

/-- The argument that is set. -/
def arg : Setter → Arg
  | .i64 val => .int .int64 val
  | .u64 val => .int .uint64 val
  | .i32 val => .int .int32 val
  | .u32 val => .int .uint32 val
  | .i16 val => .int .int16 val
  | .u16 val => .int .uint16 val
  | .i8 val => .int .int8 val
  | .u8 val => .int .uint8 val
  | .double val => .double val
  | .float val => .float val
  | .stack intent buff len lenLt vemva =>
    .onStack ⟨buff, len, lenLt, intent.copiedIn, intent.copiedOut, vemva⟩

theorem call_eq (s : Setter) (heap : Heap) (argnum : Int) :
    s.call heap argnum = ArgsM.returning (CallArgs.setArg heap argnum s.arg) := by
  cases s <;> rfl

end Setter

/-! ## What they throw -/

namespace ArgsM

theorem lift_eq_ok {α : Type} {x : Except Fault α} {ca ca' : CallArgs} {v : α} :
    lift x ca = .ok v ca' ↔ x = .ok v ∧ ca' = ca := by
  constructor
  · intro h
    cases x with
    | ok v' =>
        cases h
        exact ⟨rfl, rfl⟩
    | error f => cases h
  · rintro ⟨rfl, rfl⟩
    rfl

theorem alloc_eq_ok {available : Bool} {ca ca' : CallArgs} {u : Unit} :
    alloc available ca = .ok u ca' ↔ available = true ∧ ca' = ca := by
  constructor
  · intro h
    cases available with
    | true =>
        cases h
        exact ⟨rfl, rfl⟩
    | false => cases h
  · rintro ⟨rfl, rfl⟩
    rfl

/-- The body of a setter throws no `VEOException`. -/
def NoVeo {α : Type} (x : ArgsM α) : Prop :=
  ∀ ca ca', x ca ≠ .error .veoException ca'

theorem NoVeo.bind {α β : Type} {x : ArgsM α} {f : α → ArgsM β} (hx : x.NoVeo)
    (hf : ∀ v, (f v).NoVeo) : (x >>= f).NoVeo := by
  intro ca ca' h
  rcases EStateM.bind_eq_error.mp h with hfail | ⟨v, ca₁, -, hrest⟩
  · exact hx ca ca' hfail
  · exact hf v ca₁ ca' hrest

theorem noVeo_lift {α : Type} (x : Except Fault α) : (lift x).NoVeo := by
  intro ca ca' h
  cases x <;> cases h

theorem noVeo_alloc (available : Bool) : (alloc available).NoVeo := by
  intro ca ca' h
  cases available <;> cases h

/-- The two ways to leave the `try` block with a result. -/
theorem returning_eq_ok {body : ArgsM Unit} {ca ca' : CallArgs} {rv : Int} :
    returning body ca = .ok rv ca' ↔
      body ca = .ok () ca' ∧ rv = 0 ∨ body ca = .error .veoException ca' ∧ rv = -1 := by
  have hrun : returning body ca = match body ca with
      | .ok _ ca₁ => .ok 0 ca₁
      | .error .veoException ca₁ => .ok (-1) ca₁
      | .error e ca₁ => .error e ca₁ := by
    simp only [returning, tryCatch, tryCatchThe, MonadExceptOf.tryCatch, EStateM.tryCatch, bind,
      EStateM.bind]
    rcases body ca with ⟨_, ca₁⟩ | ⟨_ | _ | f, ca₁⟩ <;> rfl
  rw [hrun]
  rcases body ca with ⟨_, ca₁⟩ | ⟨_ | _ | f, ca₁⟩ <;> simp [and_comm, eq_comm]

end ArgsM

namespace CallArgs

open ArgsM

theorem reserve_apply (heap : Heap) (n : Nat) (ca : CallArgs) :
    reserve heap n ca =
      if ca.arguments.length < n then
        (do
          let arguments ← lift (resize ca.arguments n)
          alloc (heap.slots n)
          set { ca with arguments := arguments } : ArgsM Unit) ca
      else .ok () ca := by
  by_cases h : ca.arguments.length < n
  · rw [if_pos h]
    exact congrFun (if_pos h) ca
  · rw [if_neg h]
    exact congrFun (if_neg h) ca

theorem noVeo_reserve (heap : Heap) (n : Nat) : (reserve heap n).NoVeo := by
  intro ca ca' h
  rw [reserve_apply] at h
  split at h
  · refine ((noVeo_lift _).bind fun slots => (noVeo_alloc _).bind fun _ => ?_) ca ca' h
    intro ca₁ ca₂ hset
    cases hset
  · cases h

theorem noVeo_assign (argnum : Int) (a : Arg) : (assign argnum a).NoVeo := by
  intro ca ca' h
  unfold assign at h
  split at h <;> cases h

theorem noVeo_setArg (heap : Heap) (argnum : Int) (a : Arg) : (setArg heap argnum a).NoVeo :=
  (noVeo_lift _).bind fun n => (noVeo_reserve heap (toSizeT n)).bind fun _ =>
    (noVeo_alloc heap.object).bind fun _ => noVeo_assign argnum a

theorem reserve_eq_ok {heap : Heap} {n : Nat} {ca ca' : CallArgs} {u : Unit} :
    reserve heap n ca = .ok u ca' ↔
      (ca.arguments.length < n → heap.slots n = true) ∧
        ∃ slots, extend ca.arguments n = .ok slots ∧ ca' = { ca with arguments := slots } := by
  rw [reserve_apply]
  by_cases hlen : ca.arguments.length < n
  · have hextend : extend ca.arguments n = resize ca.arguments n := if_pos hlen
    rw [if_pos hlen, hextend]
    constructor
    · intro h
      obtain ⟨slots, ca₁, hresize, h₁⟩ := EStateM.bind_eq_ok.mp h
      obtain ⟨hslots, rfl⟩ := lift_eq_ok.mp hresize
      obtain ⟨_, ca₂, halloc, hset⟩ := EStateM.bind_eq_ok.mp h₁
      obtain ⟨hheap, rfl⟩ := alloc_eq_ok.mp halloc
      cases hset
      exact ⟨fun _ => hheap, slots, hslots, rfl⟩
    · rintro ⟨hheap, slots, hslots, rfl⟩
      refine EStateM.bind_eq_ok.mpr ⟨slots, ca, lift_eq_ok.mpr ⟨hslots, rfl⟩, ?_⟩
      exact EStateM.bind_eq_ok.mpr ⟨(), ca, alloc_eq_ok.mpr ⟨hheap hlen, rfl⟩, rfl⟩
  · have hextend : extend ca.arguments n = .ok ca.arguments := if_neg hlen
    rw [if_neg hlen, hextend]
    constructor
    · intro h
      cases h
      exact ⟨fun h => absurd h hlen, ca.arguments, rfl, rfl⟩
    · rintro ⟨-, slots, hslots, rfl⟩
      cases hslots
      rfl

/-- The body of a setter returns when `setSlot` does and the allocations succeed. -/
theorem setArg_eq_ok {heap : Heap} {argnum : Int} {a : Arg} {ca ca' : CallArgs} {u : Unit} :
    setArg heap argnum a ca = .ok u ca' ↔
      (ca.arguments.length < toSizeT (argnum + 1) → heap.slots (toSizeT (argnum + 1)) = true) ∧
        heap.object = true ∧ ca.setSlot argnum a = .ok ca' := by
  constructor
  · intro h
    obtain ⟨n, ca₁, hint, h₁⟩ := EStateM.bind_eq_ok.mp h
    obtain ⟨hn, rfl⟩ := lift_eq_ok.mp hint
    obtain ⟨_, ca₂, hreserve, h₂⟩ := EStateM.bind_eq_ok.mp h₁
    obtain ⟨hheap, slots, hslots, rfl⟩ := reserve_eq_ok.mp hreserve
    obtain ⟨_, ca₃, halloc, hassign⟩ := EStateM.bind_eq_ok.mp h₂
    obtain ⟨hobject, rfl⟩ := alloc_eq_ok.mp halloc
    obtain ⟨-, rfl⟩ := checkInt_eq_ok.mp hn
    refine ⟨hheap, hobject, Except.bind_eq_ok.mpr ⟨_, hn, Except.bind_eq_ok.mpr ⟨_, hslots, ?_⟩⟩⟩
    unfold assign at hassign
    split at hassign
    · rename_i hpos
      cases hassign
      exact Except.ite_eq_ok.mpr ⟨hpos, rfl⟩
    · cases hassign
  · rintro ⟨hheap, hobject, h⟩
    obtain ⟨n, hn, h₁⟩ := Except.bind_eq_ok.mp h
    obtain ⟨slots, hslots, h₂⟩ := Except.bind_eq_ok.mp h₁
    obtain ⟨hpos, rfl⟩ := Except.ite_eq_ok.mp h₂
    obtain ⟨-, rfl⟩ := checkInt_eq_ok.mp hn
    refine EStateM.bind_eq_ok.mpr ⟨_, ca, lift_eq_ok.mpr ⟨hn, rfl⟩, ?_⟩
    refine EStateM.bind_eq_ok.mpr ⟨(), _, reserve_eq_ok.mpr ⟨hheap, slots, hslots, rfl⟩, ?_⟩
    refine EStateM.bind_eq_ok.mpr ⟨(), _, alloc_eq_ok.mpr ⟨hobject, rfl⟩, ?_⟩
    simp only [assign, if_pos hpos]
    rfl

/-! ## The slots afterwards -/

/-- Arguments in different slots do not depend on the order in which they are set. -/
theorem put_comm (ca : CallArgs) {n m : Nat} (h : n ≠ m) (a b : Arg) :
    (ca.put n a).put m b = (ca.put m b).put n a := by
  have hslots : ((ca.put n a).put m b).arguments = ((ca.put m b).put n a).arguments := by
    refine List.ext_getElem? fun k => ?_
    simp only [put, getElem?_set_padded, length_set_padded]
    grind
  exact congrArg (fun slots => { ca with arguments := slots }) hslots

/-- The argument that is set last replaces the one before. -/
theorem put_put (ca : CallArgs) (n : Nat) (a b : Arg) : (ca.put n a).put n b = ca.put n b := by
  have hslots : ((ca.put n a).put n b).arguments = (ca.put n b).arguments := by
    refine List.ext_getElem? fun k => ?_
    simp only [put, getElem?_set_padded, length_set_padded]
    grind
  exact congrArg (fun slots => { ca with arguments := slots }) hslots

end CallArgs

/-! ## The calls -/

namespace Setter

open CallArgs ArgsM

/-- The argument number has a successor in `int` and no sign, and the allocations of the setter
    succeed. -/
def Accepts (heap : Heap) (argnum : Int) (ca : CallArgs) : Prop :=
  (0 ≤ argnum ∧ argnum < 2 ^ 31 - 1) ∧
    (ca.arguments.length ≤ argnum.toNat → heap.slots (argnum.toNat + 1) = true) ∧
    heap.object = true

/-- The setter puts its argument in the slot, extends the vector as far as necessary, and leaves
    the other arguments alone. -/
structure Placed (s : Setter) (argnum : Int) (ca ca' : CallArgs) : Prop where
  nonneg : 0 ≤ argnum
  length : (ca'.arguments.length : Int) = max (ca.arguments.length : Int) (argnum + 1)
  slot : ca'.arguments[argnum.toNat]? = some (some s.arg)
  others : ∀ m ≠ argnum.toNat, ∀ a, ca.arguments[m]? = some (some a) →
    ca'.arguments[m]? = some (some a)

/-- A setter is total and local: it returns zero and has placed its argument, or it returns -1
    and the arguments are as before. -/
def TotalLocal (s : Setter) (heap : Heap) (argnum : Int) (ca : CallArgs) : Prop :=
  ∃ rv ca', s.call heap argnum ca = .ok rv ca' ∧
    (rv = 0 ∧ s.Placed argnum ca ca' ∨ rv = -1 ∧ ca'.arguments = ca.arguments)

/-- A setter returns zero, and it does so exactly if the number and the heap are good. -/
theorem call_eq_ok {s : Setter} {heap : Heap} {argnum : Int} {ca ca' : CallArgs} {rv : Int} :
    s.call heap argnum ca = .ok rv ca' ↔
      Accepts heap argnum ca ∧ rv = 0 ∧ ca' = ca.put argnum.toNat s.arg := by
  rw [call_eq, returning_eq_ok, or_iff_left (fun h => noVeo_setArg _ _ _ _ _ h.1), setArg_eq_ok,
    setSlot_eq_ok]
  constructor
  · rintro ⟨⟨hslots, hobject, ⟨hpos, hlt⟩, hput⟩, hrv⟩
    rw [toSizeT_succ hpos (by omega)] at hslots
    exact ⟨⟨⟨hpos, hlt⟩, fun hlen => hslots (by omega), hobject⟩, hrv, hput⟩
  · rintro ⟨⟨⟨hpos, hlt⟩, hslots, hobject⟩, hrv, hput⟩
    rw [toSizeT_succ hpos (by omega)]
    exact ⟨⟨fun hlen => hslots (by omega), hobject, ⟨hpos, hlt⟩, hput⟩, hrv⟩

theorem placed_put (s : Setter) {argnum : Int} (h : 0 ≤ argnum) (ca : CallArgs) :
    s.Placed argnum ca (ca.put argnum.toNat s.arg) where
  nonneg := h
  length := by
    simp only [put, length_set_padded]
    omega
  slot := by
    simp only [put, getElem?_set_padded, if_true]
  others := by
    intro m hm a hset
    obtain ⟨hlt, -⟩ := List.getElem?_eq_some_iff.mp hset
    simp only [put, getElem?_set_padded, if_neg hm, if_pos hlt, hset]

/-- A setter is total and local exactly if the number of the argument has a successor in `int` and
    no sign and the allocations succeed. Setters that return zero commute on different arguments,
    and the later one on the same argument overrides the earlier one. -/
theorem totalLocal_iff (s t : Setter) (i j : Int) (ca : CallArgs) :
    (∀ heap, s.TotalLocal heap i ca ↔ Accepts heap i ca) ∧
    ∀ h₁ h₂ h₃ h₄ ca₁ ca₂ ca₃ ca₄,
      s.call h₁ i ca = .ok 0 ca₁ → t.call h₂ j ca₁ = .ok 0 ca₂ →
      t.call h₃ j ca = .ok 0 ca₃ → s.call h₄ i ca₃ = .ok 0 ca₄ →
        (i ≠ j → ca₂ = ca₄) ∧ (i = j → ca₂ = ca₃) := by
  refine ⟨fun heap => ⟨?_, fun h => ?_⟩, ?_⟩
  · rintro ⟨rv, ca', hcall, -⟩
    exact (call_eq_ok.mp hcall).1
  · exact ⟨0, _, call_eq_ok.mpr ⟨h, rfl, rfl⟩, .inl ⟨rfl, s.placed_put h.1.1 ca⟩⟩
  · intro h₁ h₂ h₃ h₄ ca₁ ca₂ ca₃ ca₄ hs ht ht' hs'
    obtain ⟨⟨⟨hi, -⟩, -⟩, -, rfl⟩ := call_eq_ok.mp hs
    obtain ⟨⟨⟨hj, -⟩, -⟩, -, rfl⟩ := call_eq_ok.mp ht
    obtain ⟨-, -, rfl⟩ := call_eq_ok.mp ht'
    obtain ⟨-, -, rfl⟩ := call_eq_ok.mp hs'
    refine ⟨fun hne => put_comm ca (by omega) s.arg t.arg, ?_⟩
    rintro rfl
    exact put_put ca _ s.arg t.arg

/-- An integer and a buffer in the slots 1 and 0 of an empty object. -/
theorem totalLocal_two :
    let heap : Heap := ⟨fun n => n ≤ 2, true⟩
    let s : Setter := .i64 7
    let t : Setter := .stack .in_ 0x100 5 (by decide) 0xdead
    let ca : CallArgs := ⟨[], 0, 0, [], false, false⟩
    s.TotalLocal heap 1 ca ∧
      ∃ ca₁ ca₂ ca₃, s.call heap 1 ca = .ok 0 ca₁ ∧ t.call heap 0 ca₁ = .ok 0 ca₂ ∧
        t.call heap 0 ca = .ok 0 ca₃ ∧ s.call heap 1 ca₃ = .ok 0 ca₂ := by
  intro heap s t ca
  obtain ⟨htotal, hcomm⟩ := totalLocal_iff s t 1 0 ca
  refine ⟨(htotal heap).mpr (by unfold Accepts; decide), _, _, _, rfl, rfl, rfl, ?_⟩
  rw [(hcomm heap heap heap heap _ _ _ _ rfl rfl rfl rfl).1 (by decide)]
  rfl

/-- With all the memory it may ask for, a setter indexes the vector before its first slot for the
    argument -1, and lets `std::length_error` escape for -2. -/
theorem not_totalLocal_negative :
    let heap : Heap := ⟨fun _ => true, true⟩
    let ca : CallArgs := ⟨[], 0, 0, [], false, false⟩
    (Setter.i64 7).call heap (-1) ca = .error (.fault .outOfRange) ca ∧
      (Setter.i64 7).call heap (-2) ca = .error (.fault .lengthError) ca ∧
      ¬ (Setter.i64 7).TotalLocal heap (-1) ca ∧ ¬ (Setter.i64 7).TotalLocal heap (-2) ca := by
  refine ⟨rfl, rfl, ?_, ?_⟩
  · rintro ⟨rv, ca', h, -⟩
    cases h
  · rintro ⟨rv, ca', h, -⟩
    cases h

end Setter

end Veo
