-- SUMMARY: Enumerations and constants of the public and private headers, and the machine integers the library computes with.
import Mathlib.Algebra.Group.Nat.Defs
import Mathlib.Algebra.Group.Int.Defs
import Mathlib.Data.Int.Basic

/-!
# Constants of the headers

The enumerations of `ve_offload.h`, the constants of `veo_private_defs.h` and
`CallArgs.hpp`, and the conversions between the C++ integer types that the library
relies on.
-/

namespace Veo

/-! ## Enumerations -/

/-- `enum veo_context_state`. -/
inductive ContextState where
  | unknown | running | syscall | blocked | exit
deriving DecidableEq, Repr

/-- `enum veo_command_state`. -/
inductive CommandStatus where
  | ok | exception | error | unfinished
deriving DecidableEq, Repr

/-- `enum veo_args_intent`. -/
inductive Intent where
  | in_ | inout | out
deriving DecidableEq, Repr

/-- `enum veo_queue_state`. -/
inductive QueueStatus where
  | ready | closed
deriving DecidableEq, Repr

/-! ## Constants -/

/-- `VEO_REQUEST_ID_INVALID`, `~0UL`. -/
def requestIdInvalid : BitVec 64 := BitVec.allOnes 64

/-- `NUM_ARGS_ON_REGISTER`. -/
def numArgsOnRegister : Nat := 8

/-- `PARAM_AREA_OFFSET`. -/
def paramAreaOffset : Nat := 176

/-- `NR_ve_sysve`. -/
def nrSysve : Int := 316

/-- `VE_SYSVE_VEO_BLOCK`. -/
def sysveVeoBlock : BitVec 64 := 0x14

/-! ## Machine integers

`int` has 32 bits and `size_t` 64. Converting to either type keeps the value modulo
its range; arithmetic on `int` that leaves the range is undefined. -/

/-- Conversion to `int`. -/
def toInt32 (i : Int) : Int := i.bmod (2 ^ 32)

/-- Conversion to `size_t` or `uint64_t`. -/
def toSizeT (i : Int) : Nat := (i % 2 ^ 64).toNat

/-- Conversion of an integer to a 64-bit word. -/
def toWord (i : Int) : BitVec 64 := BitVec.ofInt 64 i

theorem toSizeT_succ {i : Int} (hlo : 0 ≤ i) (hhi : i < 2 ^ 31) :
    toSizeT (i + 1) = i.toNat + 1 := by
  unfold toSizeT
  omega

theorem toInt32_eq_self {i : Int} (hlo : -2 ^ 31 ≤ i) (hhi : i < 2 ^ 31) : toInt32 i = i := by
  unfold toInt32
  exact Int.bmod_eq_of_le (by omega) (by omega)

theorem toInt32_congr {i j : Int} (h : i % 2 ^ 32 = j % 2 ^ 32) : toInt32 i = toInt32 j := by
  have hi := Int.emod_bmod i (2 ^ 32)
  have hj := Int.emod_bmod j (2 ^ 32)
  unfold toInt32
  rw [← hi, ← hj]
  exact congrArg (fun k : Int => k.bmod (2 ^ 32)) h

theorem toInt32_emod (i : Int) : toInt32 i % 2 ^ 32 = i % 2 ^ 32 := by
  unfold toInt32
  exact Int.bmod_emod

theorem toInt32_lt (i : Int) : toInt32 i < 2 ^ 31 := by
  have hlt := Int.bmod_lt (x := i) (m := 2 ^ 32) (by decide)
  unfold toInt32
  omega

end Veo
