-- SUMMARY: The class CallArgs: the stack image of a call, its register values, and the transfers before and after the call.
import Veo.CallArgs.Argument

/-!
# The arguments object of a call

`CallArgs` holds the arguments of a VE function and, between `setup` and `copyout`,
the image of the stack frame it builds for the call. The members that the constructor
leaves indeterminate may hold any value before `setup`.
-/

namespace Veo

open Bytes

/-- The ways a function of `CallArgs` can end the program: an empty slot is
    dereferenced, an `int` computation leaves its range, a string or vector outgrows
    `max_size`, an element before the first one of a vector is used, or a `VEO_ASSERT`
    fails. -/
inductive Fault where
  | nullDereference | intOverflow | lengthError | outOfRange | assertion
deriving DecidableEq, Repr

/-- No string is longer than the largest difference of two pointers. -/
def stringMaxSize : Nat := 2 ^ 63 - 1

/-- The same bound for a vector of pointers. -/
def vectorMaxSize : Nat := stringMaxSize / 8

/-- An `int` computation: its result, if it is in the range of `int`. -/
def checkInt (i : Int) : Except Fault Int :=
  if -2 ^ 31 ≤ i ∧ i < 2 ^ 31 then .ok i else .error .intOverflow

theorem checkInt_eq_ok {i j : Int} :
    checkInt i = .ok j ↔ (-2 ^ 31 ≤ i ∧ i < 2 ^ 31) ∧ i = j :=
  Except.ite_eq_ok

structure CallArgs where
  arguments : List (Option Arg)
  stackTop : BitVec 64
  stackSize : Nat
  stackBuf : List Byte
  copiedIn : Bool
  copiedOut : Bool
deriving DecidableEq

/-- A value of one of the types that `CallArgs::set` accepts. -/
inductive Scalar where
  | int (T : IntType) (value : BitVec (8 * T.size))
  | double (bits : BitVec 64)
  | float (bits : BitVec 32)
deriving DecidableEq

/-- `new internal::ArgType<T>(val)`. -/
def Scalar.toArg : Scalar → Arg
  | .int T v => .int T v
  | .double bits => .double bits
  | .float bits => .float bits

namespace CallArgs

/-! ## Setting the arguments -/

/-- `arguments.resize`, which is only called to extend the vector: the new slots are
    empty. -/
def resize (arguments : List (Option Arg)) (n : Nat) : Except Fault (List (Option Arg)) :=
  if n ≤ vectorMaxSize then .ok (arguments ++ List.replicate (n - arguments.length) none)
  else .error .lengthError

/-- Extend the vector to `n` slots if it is shorter. -/
def extend (arguments : List (Option Arg)) (n : Nat) : Except Fault (List (Option Arg)) :=
  if arguments.length < n then resize arguments n else .ok arguments

/-- The common body of `set_` and `setOnStack`: extend the vector if necessary, and put
    the argument in its slot. The number `argnum + 1` is an `int` that is compared as a
    `size_t`, so the vector is extended beyond its limit for `argnum < -1`, and not at all
    for `-1`. -/
def setSlot (ca : CallArgs) (argnum : Int) (a : Arg) : Except Fault CallArgs := do
  let n ← checkInt (argnum + 1)
  let arguments ← extend ca.arguments (toSizeT n)
  if 0 ≤ argnum then
    .ok { ca with arguments := arguments.set argnum.toNat (some a) }
  else
    .error .outOfRange

/-- `set_`. -/
def set_ (ca : CallArgs) (argnum : Int) (val : Scalar) : Except Fault CallArgs :=
  ca.setSlot argnum val.toArg

/-- `setOnStack`. The constructor of `ArgOnStack` does not set `vemva`. -/
def setOnStack (ca : CallArgs) (intent : Intent) (argnum : Int) (buff len : Nat)
    (lenLt : len < 2 ^ 64) (vemva : BitVec 64) : Except Fault CallArgs :=
  ca.setSlot argnum (.onStack ⟨buff, len, lenLt, intent.copiedIn, intent.copiedOut, vemva⟩)

/-- `clear`. -/
def clear (ca : CallArgs) : CallArgs := { ca with arguments := [] }

/-! ## Building the image -/

/-- The arguments behind the pointers in the vector. Every loop over the vector
    dereferences all of its slots. -/
def deref (ca : CallArgs) : Except Fault (List Arg) :=
  match ca.arguments.mapM id with
  | some args => .ok args
  | none => .error .nullDereference

/-- `getRegVal`: the words of the first arguments, at most one for each register. -/
def getRegVal (ca : CallArgs) : Except Fault (List (BitVec 64)) :=
  match (ca.arguments.take numArgsOnRegister).mapM id with
  | some args => .ok (args.map Arg.getRegVal)
  | none => .error .nullDereference

/-- The sum of the stack arguments' sizes as `std::accumulate` computes it: the initial
    value is the `int` zero, so every intermediate sum is converted to `int`. -/
def accumulateSizes (args : List Arg) : Int :=
  args.foldl (fun s a => toInt32 ((toSizeT s + a.sizeOnStack) % 2 ^ 64 : Nat)) 0

/-- The loop of `getStackImage` over the arguments from number `n` on. -/
def setStackImages (sp : BitVec 64) (vh : FlatMem) :
    Nat → List Arg → List Byte → List Arg × List Byte × Bool × Bool
  | _, [], stack => ([], stack, false, false)
  | n, a :: args, stack =>
    let r := a.setStackImage sp vh stack n
    let (args', stack', i, o) := setStackImages sp vh (n + 1) args r.stack
    (r.arg :: args', stack', r.in_ || i, r.out_ || o)

/-- `getStackImage`: lower the stack pointer by the size of the frame, and build the
    image of the frame. The frame size is computed in `int`; the product `8 * numArgs()`
    bounds the number of arguments before the loop computes any slot position. -/
def getStackImage (ca : CallArgs) (vh : FlatMem) (sp : BitVec 64) :
    Except Fault (CallArgs × BitVec 64 × List Byte) := do
  let args ← ca.deref
  -- allocate stack
  let area ← checkInt (paramAreaOffset + 8 * args.length)
  let size ← checkInt (area + accumulateSizes args)
  let stackSize := toSizeT size
  let sp := sp - BitVec.ofNat 64 stackSize
  let (args, stack, copiedIn, copiedOut) :=
    setStackImages sp vh 0 args (zeros (paramAreaOffset + 8 * args.length))
  if stringMaxSize < stack.length then
    .error .lengthError
  else
    .ok ({ ca with arguments := args.map some, stackTop := sp, stackSize := stackSize,
                   copiedIn := copiedIn, copiedOut := copiedOut }, sp, stack)

/-- `setup`: build the image and keep it in `stackBuf`. Returns the object and the
    lowered stack pointer. -/
def setup (ca : CallArgs) (vh : FlatMem) (sp : BitVec 64) :
    Except Fault (CallArgs × BitVec 64) := do
  let (ca, sp, img) ← ca.getStackImage vh sp
  if ca.stackSize = img.length then
    .ok ({ ca with stackBuf := img }, sp)
  else
    .error .assertion

/-! ## The transfers -/

section Transfer
variable {σ : Type}

/-- `copyin`: send the image to the VE, if any argument needs it. The effect of the
    transfer is on a state of type `σ`; its result is dropped. -/
def copyin (ca : CallArgs) (xfer : BitVec 64 → List Byte → σ → Int × σ) (s : σ) : σ :=
  if ca.copiedIn then (xfer ca.stackTop ca.stackBuf s).2 else s

/-- `copyout`: read the frame back from the VE into `stackBuf`, if any argument needs
    it, and copy the output arguments to their VH buffers. The transfer gets the old
    contents of the buffer and returns the new ones; its result is dropped. -/
def copyout (ca : CallArgs) (xfer : BitVec 64 → Nat → List Byte → σ → Int × List Byte × σ)
    (vh : FlatMem) (s : σ) : Except Fault (CallArgs × FlatMem × σ) :=
  if ca.copiedOut then do
    let (_, buf, s) := xfer ca.stackTop ca.stackSize ca.stackBuf s
    let args ← ca.deref
    let vh := args.foldl (fun vh a => a.copyoutFromStackImage ca.stackTop buf vh) vh
    return ({ ca with stackBuf := buf }, vh, s)
  else
    return (ca, vh, s)

end Transfer

end CallArgs

end Veo
