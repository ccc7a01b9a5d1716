-- SUMMARY: The stack frame of a call as an abstract layout, and the proof that the image built by CallArgs is that frame.
import Veo.CallArgs.Basic

/-!
# The stack frame of a call

What the stack image is for: a frame is a save area of `paramAreaOffset` bytes, one
eight-byte slot for each argument, and one region for each stack argument, padded to a
multiple of eight bytes. The code grows the image by appending and overwrites the slots
in place; `CallArgs.setStackImages_eq` says that the result is the frame.
-/

namespace Veo

open Bytes

/-! ## The frame -/

/-- `n` rounded up to a multiple of eight. -/
def roundUp (n : Nat) : Nat := (n + 7) / 8 * 8

namespace Arg

/-- The room an argument takes in the data area. -/
def dataSize : Arg → Nat
  | .int _ _ | .double _ | .float _ => 0
  | .onStack a => roundUp a.len

/-- The bytes of an argument in the data area, padding included. -/
def region (vh : FlatMem) : Arg → List Byte
  | .int _ _ | .double _ | .float _ => []
  | .onStack a =>
    (if a.in_ then vh.read a.buff a.len else zeros a.len) ++ zeros (roundUp a.len - a.len)

/-- The slot of an argument that is passed on the stack: the bytes of an integer or a
    double from the low end, a float in the upper half, the address of a buffer. -/
def slot : Arg → List Byte
  | .int T v => ofNatLE T.size v.toNat ++ zeros (8 - T.size)
  | .double bits => ofNatLE 8 bits.toNat
  | .float bits => zeros 4 ++ ofNatLE 4 bits.toNat
  | .onStack a => ofNatLE 8 a.vemva.toNat

/-- The slot of argument number `n`; the slots of register arguments stay empty. -/
def slotAt (n : Nat) (a : Arg) : List Byte :=
  if n < numArgsOnRegister then zeros 8 else a.slot

/-- The argument with its region at VE address `addr`. -/
def place (addr : BitVec 64) : Arg → Arg
  | .onStack a => .onStack { a with vemva := addr }
  | a => a

/-- Whether argument number `n` asks for the image to be sent. -/
def sends (n : Nat) : Arg → Bool
  | .int _ _ | .double _ | .float _ => !decide (n < numArgsOnRegister)
  | .onStack a => a.in_

/-- Whether an argument asks for the image to be read back. -/
def receives : Arg → Bool
  | .int _ _ | .double _ | .float _ => false
  | .onStack a => a.out_

end Arg

namespace Frame

/-- The arguments with their regions laid out from offset `off` above `sp` on. -/
def place (sp : BitVec 64) : Nat → List Arg → List Arg
  | _, [] => []
  | off, a :: args =>
    a.place (sp + BitVec.ofNat 64 off) :: place sp (off + a.dataSize) args

/-- The slots of the arguments from number `n` on. -/
def slots : Nat → List Arg → List (List Byte)
  | _, [] => []
  | n, a :: args => a.slotAt n :: slots (n + 1) args

/-- The size of the data area. -/
def dataSize (args : List Arg) : Nat := (args.map Arg.dataSize).sum

/-- The size of the whole frame. -/
def size (args : List Arg) : Nat := paramAreaOffset + 8 * args.length + dataSize args

/-- Where the data area starts. -/
def dataStart (args : List Arg) : Nat := paramAreaOffset + 8 * args.length

/-- The bytes of the frame. -/
def bytes (vh : FlatMem) (args : List Arg) : List Byte :=
  zeros paramAreaOffset ++ (slots 0 args).flatten ++ (args.map (Arg.region vh)).flatten

end Frame

/-! ## Sizes -/

theorem roundUp_mod (n : Nat) : roundUp n % 8 = 0 := by unfold roundUp; omega

theorem le_roundUp (n : Nat) : n ≤ roundUp n := by unfold roundUp; omega

namespace Arg

@[simp] theorem length_region (vh : FlatMem) (a : Arg) : (a.region vh).length = a.dataSize := by
  cases a with
  | onStack a =>
      have h := le_roundUp a.len
      cases hin : a.in_ <;> simp [region, dataSize, hin] <;> omega
  | _ => rfl

@[simp] theorem length_slot (a : Arg) : a.slot.length = 8 := by
  cases a with
  | int T v => cases T <;> simp [slot, IntType.size]
  | _ => simp [slot]

@[simp] theorem length_slotAt (n : Nat) (a : Arg) : (a.slotAt n).length = 8 := by
  unfold slotAt
  split <;> simp

@[simp] theorem dataSize_place (a : Arg) (addr : BitVec 64) :
    (a.place addr).dataSize = a.dataSize := by
  cases a <;> rfl

@[simp] theorem region_place (vh : FlatMem) (a : Arg) (addr : BitVec 64) :
    (a.place addr).region vh = a.region vh := by
  cases a <;> rfl

/-- Rounding up wraps around in `size_t` only where `roundUp` leaves the type. -/
theorem sizeOnStack_mod (a : Arg) : a.sizeOnStack % 2 ^ 64 = a.dataSize % 2 ^ 64 := by
  cases a with
  | onStack a =>
      simp only [sizeOnStack, dataSize, roundUp]
      split <;> omega
  | _ => rfl

end Arg

namespace Frame

@[simp] theorem length_place (sp : BitVec 64) (off : Nat) (args : List Arg) :
    (place sp off args).length = args.length := by
  induction args generalizing off with
  | nil => rfl
  | cons a args ih => simp [place, ih]

theorem length_slots_flatten (n : Nat) (args : List Arg) :
    (slots n args).flatten.length = 8 * args.length := by
  induction args generalizing n with
  | nil => rfl
  | cons a args ih => simp [slots, ih]; omega

theorem length_regions_flatten (vh : FlatMem) (args : List Arg) :
    (args.map (Arg.region vh)).flatten.length = dataSize args := by
  induction args with
  | nil => rfl
  | cons a args ih => simpa [dataSize] using ih

@[simp] theorem map_region_place (vh : FlatMem) (sp : BitVec 64) (off : Nat) (args : List Arg) :
    (place sp off args).map (Arg.region vh) = args.map (Arg.region vh) := by
  induction args generalizing off with
  | nil => rfl
  | cons a args ih => simp [place, ih]

@[simp] theorem dataSize_place (sp : BitVec 64) (off : Nat) (args : List Arg) :
    dataSize (place sp off args) = dataSize args := by
  unfold dataSize
  induction args generalizing off with
  | nil => rfl
  | cons a args ih => simp [place, ih]

theorem length_bytes (vh : FlatMem) (args : List Arg) : (bytes vh args).length = size args := by
  simp only [bytes, size, List.length_append, length_zeros, length_slots_flatten,
    length_regions_flatten]

end Frame

/-! ## The image is the frame -/

/-- Writing a value over an empty slot. -/
theorem setValue_slot (hd tl : List Byte) {offset size : Nat} (value : Nat) (hoff : offset = hd.length)
    (hpos : 0 < size) (hle : size ≤ 8) :
    setValue (hd ++ zeros 8 ++ tl) offset size value =
      hd ++ (ofNatLE size value ++ zeros (8 - size)) ++ tl := by
  have hroom : ¬ (hd ++ zeros 8 ++ tl).length < offset := by simp; omega
  have hsplit : hd ++ zeros 8 ++ tl = hd ++ zeros size ++ (zeros (8 - size) ++ tl) := by
    have h8 : zeros 8 = zeros size ++ zeros (8 - size) := by rw [zeros_append]; congr 1; omega
    rw [h8]
    simp only [List.append_assoc]
  have hput : splice (hd ++ zeros 8 ++ tl) offset size (ofNatLE size value) =
      hd ++ ofNatLE size value ++ (zeros (8 - size) ++ tl) := by
    rw [hsplit]
    exact splice_middle hoff (by simp)
  unfold setValue
  simp only [if_neg hroom, hput]
  split
  · -- a short value: the padding is written over the rest of the slot
    have hmod : size % 8 = size := Nat.mod_eq_of_lt (by omega)
    rw [hmod, ← List.append_assoc,
      splice_middle (by rw [List.length_append, length_ofNatLE, hoff]) (by simp)]
    simp only [List.append_assoc]
  · have h8 : size = 8 := by omega
    subst h8
    simp [zeros]

theorem floatWord_toNat (bits : BitVec 32) : (floatWord bits).toNat = bits.toNat * 2 ^ 32 := by
  rw [floatWord, BitVec.toNat_append, BitVec.toNat_ofNat, Nat.zero_mod, Nat.or_zero,
    Nat.shiftLeft_eq]

/-- The bytes of a float word: the float is in the upper half. -/
theorem ofNatLE_floatWord (bits : BitVec 32) :
    ofNatLE 8 (floatWord bits).toNat = zeros 4 ++ ofNatLE 4 bits.toNat := by
  rw [floatWord_toNat, show (2 : Nat) ^ 32 = 256 ^ 4 from rfl]
  exact ofNatLE_mul_pow 4 4 bits.toNat

namespace Arg

theorem setScalarImage_eq {a : Arg} {size value : Nat} {hd tl : List Byte} {n : Nat}
    (hhd : hd.length = paramAreaOffset + 8 * n) (hpos : 0 < size) (hle : size ≤ 8) :
    setScalarImage a size value (hd ++ zeros 8 ++ tl) n =
      { arg := a,
        stack := hd ++ (if n < numArgsOnRegister then zeros 8
          else ofNatLE size value ++ zeros (8 - size)) ++ tl,
        in_ := !decide (n < numArgsOnRegister), out_ := false } := by
  by_cases hn : n < numArgsOnRegister
  · simp [setScalarImage, hn]
  · have hoff : paramAreaOffset + n * 8 = hd.length := by omega
    have hset := setValue_slot hd tl value hoff hpos hle
    rw [setScalarImage, if_neg hn, hset, if_neg hn]
    simp [hn]

/-- What a buffer appends is its region. -/
theorem append_region {a : ArgOnStack} {vh : FlatMem} {stack : List Byte} :
    (if a.len % 8 > 0 then
      stack ++ (if a.in_ then vh.read a.buff a.len else zeros a.len) ++ zeros (8 - a.len % 8)
     else stack ++ (if a.in_ then vh.read a.buff a.len else zeros a.len)) =
      stack ++ (Arg.onStack a).region vh := by
  simp only [region, roundUp]
  split
  · rw [show 8 - a.len % 8 = (a.len + 7) / 8 * 8 - a.len by omega, List.append_assoc]
  · rw [show (a.len + 7) / 8 * 8 - a.len = 0 by omega]
    simp [zeros]

theorem setBufferImage_eq {a : ArgOnStack} {sp : BitVec 64} {vh : FlatMem} {hd tl : List Byte}
    {n : Nat} (hhd : hd.length = paramAreaOffset + 8 * n) :
    let b := { a with vemva := sp + BitVec.ofNat 64 (hd ++ zeros 8 ++ tl).length }
    setBufferImage a sp vh (hd ++ zeros 8 ++ tl) n =
      { arg := .onStack b,
        stack := hd ++ (Arg.onStack b).slotAt n ++ (tl ++ (Arg.onStack a).region vh),
        in_ := a.in_, out_ := a.out_ } := by
  intro b
  have hset := setValue_slot hd (tl ++ (Arg.onStack a).region vh) b.vemva.toNat hhd.symm
    (show 0 < 8 by decide) (Nat.le_refl 8)
  simp only [setBufferImage, append_region]
  rw [List.append_assoc (hd ++ zeros 8) tl]
  by_cases hn : n < numArgsOnRegister
  · rw [if_neg (by omega), slotAt, if_pos hn]
  · rw [if_pos (by omega), slotAt, if_neg hn, hset, show zeros (8 - 8) = [] from rfl,
      List.append_nil]
    rfl

/-- One step of the image: the slot of argument `n` is filled in place, and its region
    is appended. -/
theorem setStackImage_eq {a : Arg} {sp : BitVec 64} {vh : FlatMem} {hd tl : List Byte} {n : Nat}
    (hhd : hd.length = paramAreaOffset + 8 * n) :
    let b := a.place (sp + BitVec.ofNat 64 (hd ++ zeros 8 ++ tl).length)
    a.setStackImage sp vh (hd ++ zeros 8 ++ tl) n =
      { arg := b, stack := hd ++ b.slotAt n ++ (tl ++ a.region vh),
        in_ := a.sends n, out_ := a.receives } := by
  cases a with
  | int T v =>
      have hsize : 0 < T.size ∧ T.size ≤ 8 := by cases T <;> decide
      simp only [setStackImage, setScalarImage_eq hhd hsize.1 hsize.2, place, slotAt, slot, region,
        sends, receives, List.append_nil]
  | double bits =>
      simp only [setStackImage, setScalarImage_eq hhd (by decide) (Nat.le_refl 8), place, slotAt,
        slot, region, sends, receives, List.append_nil]
      simp [zeros]
  | float bits =>
      simp only [setStackImage, setScalarImage_eq hhd (by decide) (Nat.le_refl 8), place, slotAt,
        slot, region, sends, receives, List.append_nil, ofNatLE_floatWord]
      simp [zeros]
  | onStack a => exact setBufferImage_eq hhd

end Arg

namespace CallArgs

/-- The loop fills the slots of the remaining arguments in place and appends their
    regions. The induction is on the arguments; `hd` is the finished part of the image
    below the open slots, `tl` the regions that were appended so far. -/
theorem setStackImages_eq (sp : BitVec 64) (vh : FlatMem) (args : List Arg) (hd tl : List Byte)
    {n : Nat} (hhd : hd.length = paramAreaOffset + 8 * n) :
    let placed := Frame.place sp (hd.length + 8 * args.length + tl.length) args
    setStackImages sp vh n args (hd ++ zeros (8 * args.length) ++ tl) =
      (placed,
       hd ++ (Frame.slots n placed).flatten ++ (tl ++ (args.map (Arg.region vh)).flatten),
       (args.zipIdx n).any fun p => p.1.sends p.2, args.any Arg.receives) := by
  induction args generalizing hd tl n with
  | nil => simp [setStackImages, Frame.place, Frame.slots, zeros]
  | cons a args ih =>
      have hopen : hd ++ zeros (8 * (a :: args).length) ++ tl =
          hd ++ zeros 8 ++ (zeros (8 * args.length) ++ tl) := by
        rw [show 8 * (a :: args).length = 8 + 8 * args.length by simp; omega, ← zeros_append]
        simp only [List.append_assoc]
      have hlen : (hd ++ zeros 8 ++ (zeros (8 * args.length) ++ tl)).length =
          hd.length + 8 * (a :: args).length + tl.length := by
        simp; omega
      set b := a.place (sp + BitVec.ofNat 64 (hd.length + 8 * (a :: args).length + tl.length))
        with hb
      have hstep : a.setStackImage sp vh (hd ++ zeros 8 ++ (zeros (8 * args.length) ++ tl)) n =
          { arg := b, stack := hd ++ b.slotAt n ++ (zeros (8 * args.length) ++ tl ++ a.region vh),
            in_ := a.sends n, out_ := a.receives } := by
        rw [Arg.setStackImage_eq hhd, hlen]
      have hstack : hd ++ b.slotAt n ++ (zeros (8 * args.length) ++ tl ++ a.region vh) =
          hd ++ b.slotAt n ++ zeros (8 * args.length) ++ (tl ++ a.region vh) := by
        simp only [List.append_assoc]
      have hoff : (hd ++ b.slotAt n).length + 8 * args.length + (tl ++ a.region vh).length =
          hd.length + 8 * (a :: args).length + tl.length + a.dataSize := by
        simp; omega
      have hrest := ih (hd ++ b.slotAt n) (tl ++ a.region vh) (n := n + 1)
        (by simp [hhd]; omega)
      rw [hoff] at hrest
      simp only [setStackImages, hopen, hstep, hstack, hrest]
      simp only [Frame.place, Frame.slots, ← hb, List.flatten_cons, List.map_cons, List.zipIdx_cons,
        List.any_cons, List.append_assoc]

end CallArgs

end Veo
