-- SUMMARY: The argument classes of a VE function call: integers, doubles, floats and buffers on the VE stack.
import Veo.Defs
import Veo.Lib.Except
import Veo.Lib.Memory

/-!
# Arguments of a VE function

The subclasses of `ArgBase` in `CallArgs.cpp`. Each argument knows the word it puts in
a register, the room it needs in the data area of the stack image, how it writes
itself into the image, and how it is copied out of it.
-/

namespace Veo

open Bytes

/-! ## Writing a value into the image -/

/-- `set_value`: put the `size` bytes of a value at `offset`, extending the image if it
    is shorter, and pad with zeros to a multiple of eight bytes. Both calls of
    `std::string::replace` are at positions inside the string, so neither throws. -/
def setValue (str : List Byte) (offset size value : Nat) : List Byte :=
  let str := if str.length < offset then str ++ zeros (offset - str.length) else str
  let str := splice str offset size (ofNatLE size value)
  if size % 8 > 0 then
    let padsize := 8 - size % 8
    splice str (offset + size) padsize (zeros padsize)
  else
    str

/-! ## The argument classes -/

/-- The types `CallArgs::set_` is instantiated at, `float` and `double` apart. -/
inductive IntType where
  | int8 | int16 | int32 | int64 | uint8 | uint16 | uint32 | uint64
deriving DecidableEq, Repr

/-- `sizeof(T)`. -/
def IntType.size : IntType → Nat
  | .int8 | .uint8 => 1
  | .int16 | .uint16 => 2
  | .int32 | .uint32 => 4
  | .int64 | .uint64 => 8

def IntType.signed : IntType → Bool
  | .int8 | .int16 | .int32 | .int64 => true
  | .uint8 | .uint16 | .uint32 | .uint64 => false

/-- `ArgOnStack`: a VH buffer that is passed by reference through the VE stack. The
    constructor leaves `vemva` indeterminate, so any value may stand there before
    `setStackImage`. -/
structure ArgOnStack where
  buff : Nat
  len : Nat
  lenLt : len < 2 ^ 64
  in_ : Bool
  out_ : Bool
  vemva : BitVec 64
deriving DecidableEq

/-- The subclasses of `ArgBase`. A floating-point argument is given by its bits. -/
inductive Arg where
  | int (T : IntType) (value : BitVec (8 * T.size))
  | double (bits : BitVec 64)
  | float (bits : BitVec 32)
  | onStack (a : ArgOnStack)
deriving DecidableEq

/-- The `i64_` member of the union `{float f_[2]; int64_t i64_;}` set to `{0.0, f}`. -/
def floatWord (bits : BitVec 32) : BitVec 64 := bits ++ 0#32

namespace Arg

/-- `getRegVal`: the word passed in a register. -/
def getRegVal : Arg → BitVec 64
  | .int T v => if T.signed then v.signExtend 64 else v.setWidth 64
  | .double bits => bits
  | .float bits => floatWord bits
  | .onStack a => a.vemva

/-- `sizeOnStack`, computed in `size_t`. -/
def sizeOnStack : Arg → Nat
  | .int _ _ | .double _ | .float _ => 0
  | .onStack a => if a.len % 8 > 0 then (a.len + (8 - a.len % 8)) % 2 ^ 64 else a.len

/-- What `setStackImage` leaves behind: the argument itself (a stack argument records
    its address), the image, and the flags `in` and `out`. -/
structure Imaged where
  arg : Arg
  stack : List Byte
  in_ : Bool
  out_ : Bool

/-- `setStackImage` of the scalar classes: nothing for a register argument, else the
    value in its slot. -/
def setScalarImage (a : Arg) (size value : Nat) (stack : List Byte) (n : Nat) : Imaged :=
  if n < numArgsOnRegister then
    { arg := a, stack := stack, in_ := false, out_ := false }
  else
    { arg := a, stack := setValue stack (paramAreaOffset + n * 8) size value,
      in_ := true, out_ := false }

/-- `ArgOnStack::setStackImage`. The contents of the VH buffer are read from `vh`. -/
def setBufferImage (a : ArgOnStack) (sp : BitVec 64) (vh : FlatMem) (stack : List Byte)
    (n : Nat) : Imaged :=
  let oldlen := stack.length
  let vemva := sp + BitVec.ofNat 64 oldlen
  let stack := stack ++ (if a.in_ then vh.read a.buff a.len else zeros a.len)
  -- padding for 8 byte-aligned
  let stack := if a.len % 8 > 0 then stack ++ zeros (8 - a.len % 8) else stack
  -- point the image
  let stack :=
    if n ≥ numArgsOnRegister then setValue stack (paramAreaOffset + 8 * n) 8 vemva.toNat
    else stack
  { arg := .onStack { a with vemva := vemva }, stack := stack, in_ := a.in_, out_ := a.out_ }

/-- `setStackImage` of argument number `n`. -/
def setStackImage (a : Arg) (sp : BitVec 64) (vh : FlatMem) (stack : List Byte)
    (n : Nat) : Imaged :=
  match a with
  | .int T v => setScalarImage a T.size v.toNat stack n
  | .double bits => setScalarImage a 8 bits.toNat stack n
  | .float bits => setScalarImage a 8 (floatWord bits).toNat stack n
  | .onStack b => setBufferImage b sp vh stack n

/-- `copyoutFromStackImage`: copy the argument's part of the image `img`, which starts
    at the VE address `sp`, to its VH buffer. -/
def copyoutFromStackImage (a : Arg) (sp : BitVec 64) (img : List Byte) (vh : FlatMem) : FlatMem :=
  match a with
  | .int _ _ | .double _ | .float _ => vh
  | .onStack b =>
    if !b.out_ then vh
    else vh.write b.buff (slice img (b.vemva - sp).toNat b.len)

end Arg

/-- The flags `setOnStack` derives from the intent. -/
def Intent.copiedIn : Intent → Bool
  | .in_ | .inout => true
  | .out => false

def Intent.copiedOut : Intent → Bool
  | .out | .inout => true
  | .in_ => false

end Veo
