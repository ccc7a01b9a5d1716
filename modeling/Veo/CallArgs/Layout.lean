-- SUMMARY: What setup produces: the frame, its size, where the regions are, and what the slots and registers hold.
import Veo.CallArgs.Frame

/-!
# The layout that `setup` chooses

`CallArgs.setup` succeeds exactly when the frame is smaller than 2 GiB, and then the
image is the frame of the placed arguments. The position of every slot and region
follows from the shape of the frame.
-/

namespace Veo

open Bytes

namespace CallArgs

/-! ## The frame size -/

/-- One step of `std::accumulate`: an `int` and a `size_t` are added and the sum is
    converted back to `int`. -/
theorem accumulate_step (s : Int) (a : Arg) :
    toInt32 ((toSizeT s + a.sizeOnStack) % 2 ^ 64 : Nat) = toInt32 (s + a.dataSize) := by
  have hsize := a.sizeOnStack_mod
  apply toInt32_congr
  unfold toSizeT
  omega

theorem foldl_accumulate (args : List Arg) (s : Int) (hs : toInt32 s = s) :
    args.foldl (fun s a => toInt32 ((toSizeT s + a.sizeOnStack) % 2 ^ 64 : Nat)) s =
      toInt32 (s + Frame.dataSize args) := by
  induction args generalizing s with
  | nil => simp [Frame.dataSize, hs]
  | cons a args ih =>
      have hidem : toInt32 (toInt32 (s + a.dataSize)) = toInt32 (s + a.dataSize) :=
        toInt32_congr (toInt32_emod _)
      rw [List.foldl_cons, accumulate_step, ih _ hidem]
      apply toInt32_congr
      have h := toInt32_emod (s + a.dataSize)
      simp only [Frame.dataSize, List.map_cons, List.sum_cons, Nat.cast_add]
      omega

/-- The accumulated size is the size of the data area, reduced to an `int`. -/
theorem accumulateSizes_eq (args : List Arg) :
    accumulateSizes args = toInt32 (Frame.dataSize args) := by
  have h := foldl_accumulate args 0 rfl
  rwa [Int.zero_add] at h

/-! ## Success of `setup` -/

/-- The object after a successful `setup` of the arguments `args` at the lowered stack
    pointer `sp`. -/
def built (vh : FlatMem) (sp : BitVec 64) (args : List Arg) : CallArgs :=
  let placed := Frame.place sp (Frame.dataStart args) args
  { arguments := placed.map some
    stackTop := sp
    stackSize := Frame.size args
    stackBuf := Frame.bytes vh placed
    copiedIn := args.zipIdx.any fun p => p.1.sends p.2
    copiedOut := args.any Arg.receives }

theorem deref_map_some {ca : CallArgs} {args : List Arg} (h : ca.arguments = args.map some) :
    ca.deref = .ok args := by
  have hmap (l : List Arg) : (l.map some).mapM id = some l := by
    induction l with
    | nil => rfl
    | cons a l ih => simp [List.mapM_cons, ih]
  simp only [deref, h, hmap]

theorem arguments_of_mapM {l : List (Option Arg)} {args : List Arg} (h : l.mapM id = some args) :
    l = args.map some := by
  induction l generalizing args with
  | nil =>
      cases h
      rfl
  | cons a l ih =>
      cases a with
      | none => cases h
      | some a =>
          cases hrest : l.mapM id with
          | none => simp [List.mapM_cons, hrest] at h
          | some rest =>
              simp only [List.mapM_cons, id, hrest, Option.bind_eq_bind, Option.bind_some,
                Option.pure_def, Option.some.injEq] at h
              rw [← h, ih hrest, List.map_cons]

/-- A successful `setup` found every argument set. -/
theorem setup_arguments {ca : CallArgs} {vh : FlatMem} {sp : BitVec 64} {r : CallArgs × BitVec 64}
    (h : ca.setup vh sp = .ok r) : ∃ args : List Arg, ca.arguments = args.map some := by
  obtain ⟨_, himg, -⟩ := Except.bind_eq_ok.mp h
  obtain ⟨args, hargs, -⟩ := Except.bind_eq_ok.mp himg
  unfold deref at hargs
  split at hargs
  · rename_i hmap
    exact ⟨_, arguments_of_mapM hmap⟩
  · cases hargs

/-- The loop started on the empty image. -/
theorem setStackImages_start (sp : BitVec 64) (vh : FlatMem) (args : List Arg) :
    setStackImages sp vh 0 args (zeros (paramAreaOffset + 8 * args.length)) =
      (Frame.place sp (Frame.dataStart args) args,
       Frame.bytes vh (Frame.place sp (Frame.dataStart args) args),
       args.zipIdx.any fun p => p.1.sends p.2, args.any Arg.receives) := by
  have hstart : zeros (paramAreaOffset + 8 * args.length) =
      zeros paramAreaOffset ++ zeros (8 * args.length) ++ [] := by
    rw [zeros_append, List.append_nil]
  have h := setStackImages_eq sp vh args (zeros paramAreaOffset) [] (n := 0) (by simp)
  rw [hstart, h]
  simp [Frame.dataStart, Frame.bytes]

/-- The frame size computed in `int` passes the assertion exactly when the frame is
    small enough for an `int`. -/
theorem computed_size_iff (args : List Arg) {size : Int}
    (hsize : size = paramAreaOffset + 8 * args.length + accumulateSizes args) :
    ((-2 ^ 31 ≤ size ∧ size < 2 ^ 31) ∧ Frame.size args ≤ stringMaxSize ∧
      toSizeT size = Frame.size args) ↔ Frame.size args < 2 ^ 31 := by
  rw [accumulateSizes_eq] at hsize
  unfold toSizeT stringMaxSize
  constructor
  · rintro ⟨⟨hlo, hhi⟩, hmax, hassert⟩
    omega
  · intro hsmall
    have hacc : toInt32 (Frame.dataSize args) = Frame.dataSize args := by
      apply toInt32_eq_self
      · omega
      · unfold Frame.size at hsmall
        omega
    have heq : size = Frame.size args := by
      rw [hsize, hacc]
      simp [Frame.size]
    omega

/-- `setup` succeeds exactly when the frame is below 2 GiB, the range of the `int` in
    which its size is computed. -/
theorem setup_ok_iff {ca : CallArgs} {args : List Arg} (h : ca.arguments = args.map some)
    (vh : FlatMem) (sp : BitVec 64) (r : CallArgs × BitVec 64) :
    ca.setup vh sp = .ok r ↔
      Frame.size args < 2 ^ 31 ∧
      r = (built vh (sp - BitVec.ofNat 64 (Frame.size args)) args,
           sp - BitVec.ofNat 64 (Frame.size args)) := by
  have hlen (q : BitVec 64) : (Frame.bytes vh (Frame.place q (Frame.dataStart args) args)).length =
      Frame.size args := by
    simp [Frame.length_bytes, Frame.size]
  unfold setup getStackImage
  rw [deref_map_some h]
  constructor
  · intro hok
    obtain ⟨⟨ca₁, sp₁, img⟩, himg, hret⟩ := Except.bind_eq_ok.mp hok
    obtain ⟨args', hargs, h₁⟩ := Except.bind_eq_ok.mp himg
    cases hargs
    obtain ⟨area, harea, h₂⟩ := Except.bind_eq_ok.mp h₁
    obtain ⟨size, hsize, h₃⟩ := Except.bind_eq_ok.mp h₂
    simp only [setStackImages_start] at h₃
    obtain ⟨-, harea⟩ := checkInt_eq_ok.mp harea
    obtain ⟨hrange, hsize⟩ := checkInt_eq_ok.mp hsize
    split at h₃
    · cases h₃
    · rename_i hmax
      cases h₃
      obtain ⟨hassert, rfl⟩ := Except.ite_eq_ok.mp hret
      simp only [hlen] at hassert hmax
      rw [hsize] at hrange
      have hsmall : Frame.size args < 2 ^ 31 :=
        (computed_size_iff args (by rw [← hsize, ← harea])).mp ⟨hrange, Nat.le_of_not_lt hmax, hassert⟩
      refine ⟨hsmall, ?_⟩
      simp only [hassert]
      rfl
  · rintro ⟨hsmall, rfl⟩
    obtain ⟨hrange, hmax, hassert⟩ := (computed_size_iff args rfl).mpr hsmall
    have harea : checkInt (paramAreaOffset + 8 * args.length) =
        .ok (paramAreaOffset + 8 * args.length : Int) := by
      refine checkInt_eq_ok.mpr ⟨?_, rfl⟩
      unfold Frame.size at hsmall
      omega
    have hsize : checkInt (paramAreaOffset + 8 * args.length + accumulateSizes args) = .ok _ :=
      checkInt_eq_ok.mpr ⟨hrange, rfl⟩
    set sp₁ := sp - BitVec.ofNat 64 (Frame.size args)
    refine Except.bind_eq_ok.mpr
      ⟨({ built vh sp₁ args with stackBuf := ca.stackBuf }, sp₁, (built vh sp₁ args).stackBuf),
        Except.bind_eq_ok.mpr ⟨args, rfl, Except.bind_eq_ok.mpr ⟨_, harea,
          Except.bind_eq_ok.mpr ⟨_, hsize, ?_⟩⟩⟩, Except.ite_eq_ok.mpr ⟨(hlen sp₁).symm, rfl⟩⟩
    simp only [hassert, setStackImages_start]
    rw [if_neg (by rw [hlen]; omega)]
    rfl

/-- The size of the frame is computed without a loss: it is the size of the image, the assertion
    of `setup` holds, and the stack pointer is lowered by the size of the image that is sent. -/
structure SizeExact (ca : CallArgs) (vh : FlatMem) (sp : BitVec 64) (size : Nat) : Prop where
  computed : ∃ ca' sp' img, ca.getStackImage vh sp = .ok (ca', sp', img) ∧ ca'.stackSize = size ∧
    img.length = size
  lowered : ∃ ca' sp', ca.setup vh sp = .ok (ca', sp') ∧ ca'.stackSize = size ∧
    ca'.stackBuf.length = size ∧ sp' = sp - BitVec.ofNat 64 size

/-- For every list of arguments, the size of the frame is computed without a loss exactly if it is
    below 2 ^ 31. -/
theorem size_exact_iff {ca : CallArgs} {args : List Arg} (h : ca.arguments = args.map some)
    (vh : FlatMem) (sp : BitVec 64) :
    ca.SizeExact vh sp (Frame.size args) ↔ Frame.size args < 2 ^ 31 := by
  constructor
  · rintro ⟨-, ca', sp', hok, -⟩
    exact ((setup_ok_iff h vh sp _).mp hok).1
  · intro hsmall
    have hok := (setup_ok_iff h vh sp _).mpr ⟨hsmall, rfl⟩
    have hlen : (built vh (sp - BitVec.ofNat 64 (Frame.size args)) args).stackBuf.length =
        Frame.size args := by
      simp [built, Frame.length_bytes, Frame.size]
    obtain ⟨⟨ca₁, sp₁, img⟩, himg, hret⟩ := Except.bind_eq_ok.mp hok
    obtain ⟨hassert, hbuilt⟩ := Except.ite_eq_ok.mp hret
    obtain ⟨hca, -⟩ := Prod.mk.inj hbuilt
    have hsize : ca₁.stackSize = Frame.size args := congrArg CallArgs.stackSize hca
    exact ⟨⟨ca₁, sp₁, img, himg, hsize, hassert ▸ hsize⟩, _, _, hok, rfl, hlen, rfl⟩

/-- A buffer of 1000 bytes. -/
theorem size_exact_buffer :
    let args : List Arg := [.onStack ⟨0x100, 1000, by decide, true, false, 0⟩]
    SizeExact ⟨args.map some, 0, 0, [], false, false⟩ (fun _ => 0) 0x10000 1184 := by
  intro args
  have hset : (⟨args.map some, 0, 0, [], false, false⟩ : CallArgs).arguments = args.map some := rfl
  exact (size_exact_iff hset (fun _ => 0) 0x10000).mpr (by decide)

/-- The assertion of `setup` fails if the computed size is another one. -/
theorem setup_assertion {ca : CallArgs} {args : List Arg} (h : ca.arguments = args.map some)
    (vh : FlatMem) (sp : BitVec 64) {area size : Int}
    (harea : checkInt (paramAreaOffset + 8 * args.length) = .ok area)
    (hsize : checkInt (area + accumulateSizes args) = .ok size)
    (hmax : Frame.size args ≤ stringMaxSize) (hne : toSizeT size ≠ Frame.size args) :
    ca.setup vh sp = .error .assertion := by
  have hlen (q : BitVec 64) : (Frame.bytes vh (Frame.place q (Frame.dataStart args) args)).length =
      Frame.size args := by
    simp [Frame.length_bytes, Frame.size]
  unfold setup getStackImage
  rw [deref_map_some h]
  set sp₁ := sp - BitVec.ofNat 64 (toSizeT size)
  refine Except.bind_eq_error.mpr (.inr
    ⟨({ built vh sp₁ args with stackSize := toSizeT size, stackBuf := ca.stackBuf }, sp₁,
      (built vh sp₁ args).stackBuf), Except.bind_eq_ok.mpr ⟨args, rfl, Except.bind_eq_ok.mpr
        ⟨area, harea, Except.bind_eq_ok.mpr ⟨size, hsize, ?_⟩⟩⟩, if_neg ?_⟩)
  · simp only [setStackImages_start]
    rw [if_neg (by rw [hlen]; omega)]
    rfl
  · rw [show (built vh sp₁ args).stackBuf.length = Frame.size args from hlen sp₁]
    exact hne

/-- A buffer of 2 ^ 31 bytes: the sum is converted to a negative `int`, and the assertion fails. -/
theorem size_not_exact :
    let args : List Arg := [.onStack ⟨0x100, 2 ^ 31, by decide, false, true, 0⟩]
    let ca : CallArgs := ⟨args.map some, 0, 0, [], false, false⟩
    Frame.size args = 2 ^ 31 + 184 ∧ accumulateSizes args = -2 ^ 31 ∧
      ca.setup (fun _ => 0) 0x10000 = .error .assertion ∧
      ¬ ca.SizeExact (fun _ => 0) 0x10000 (Frame.size args) := by
  intro args ca
  have hsize : Frame.size args = 2 ^ 31 + 184 := by decide
  have hacc : accumulateSizes args = -2 ^ 31 := by decide
  have hset : ca.arguments = args.map some := rfl
  have hsetup : ca.setup (fun _ => 0) 0x10000 = .error .assertion := by
    have harea : checkInt (paramAreaOffset + 8 * args.length) = .ok 184 := by decide
    have hint : checkInt (184 + accumulateSizes args) = .ok (184 - 2 ^ 31) := by
      rw [hacc]
      decide
    refine setup_assertion hset (fun _ => 0) 0x10000 harea hint ?_ ?_
    · rw [hsize]
      decide
    · rw [hsize]
      decide
  refine ⟨hsize, hacc, hsetup, ?_⟩
  rintro ⟨-, ca', sp', hok, -⟩
  rw [hsetup] at hok
  cases hok

end CallArgs

/-! ## Positions in the frame -/

namespace Frame

/-- The offset of the region of argument number `k`. -/
def offset (args : List Arg) (k : Nat) : Nat := dataStart args + dataSize (args.take k)

theorem getElem?_place {args : List Arg} {k : Nat} {a : Arg} (sp : BitVec 64) (off : Nat)
    (h : args[k]? = some a) :
    (place sp off args)[k]? = some (a.place (sp + BitVec.ofNat 64 (off + dataSize (args.take k)))) := by
  induction args generalizing off k with
  | nil => simp at h
  | cons b args ih =>
      cases k with
      | zero =>
          cases h
          simp [place, dataSize]
      | succ k =>
          have hk := ih (off + b.dataSize) (k := k) (by simpa using h)
          simpa [place, dataSize, Nat.add_assoc] using hk

theorem getElem?_slots {args : List Arg} {k : Nat} {a : Arg} (n : Nat) (h : args[k]? = some a) :
    (slots n args)[k]? = some (a.slotAt (n + k)) := by
  induction args generalizing n k with
  | nil => simp at h
  | cons b args ih =>
      cases k with
      | zero =>
          cases h
          rfl
      | succ k =>
          have hk := ih (n + 1) (k := k) (by simpa using h)
          simpa [slots, Nat.add_assoc, Nat.add_comm 1] using hk

theorem take_slots (n k : Nat) (args : List Arg) :
    (slots n args).take k = slots n (args.take k) := by
  induction args generalizing n k with
  | nil => simp [slots]
  | cons b args ih =>
      cases k with
      | zero => rfl
      | succ k => simp [slots, ih]

theorem take_place (sp : BitVec 64) (off k : Nat) (args : List Arg) :
    (place sp off args).take k = place sp off (args.take k) := by
  induction args generalizing off k with
  | nil => simp [place]
  | cons b args ih =>
      cases k with
      | zero => rfl
      | succ k => simp [place, ih]

/-- The slot of argument number `k` is at `8 * k` in the parameter area. -/
theorem slice_slot (vh : FlatMem) {args : List Arg} {k : Nat} {a : Arg} (h : args[k]? = some a) :
    slice (bytes vh args) (paramAreaOffset + 8 * k) 8 = a.slotAt k := by
  have hk : k < args.length := (List.getElem?_eq_some_iff.mp h).1
  have hslot := slice_flatten (getElem?_slots 0 h)
  rw [take_slots, length_slots_flatten, List.length_take, Nat.min_eq_left (Nat.le_of_lt hk),
    Arg.length_slotAt, Nat.zero_add] at hslot
  have hparam : slice (zeros paramAreaOffset ++ (slots 0 args).flatten) (paramAreaOffset + 8 * k) 8 =
      slice (slots 0 args).flatten (8 * k) 8 := by
    have hright := slice_append_right (zeros paramAreaOffset) (slots 0 args).flatten (8 * k) 8
    rwa [length_zeros] at hright
  have hroom : paramAreaOffset + 8 * k + 8 ≤
      (zeros paramAreaOffset ++ (slots 0 args).flatten).length := by
    rw [List.length_append, length_zeros, length_slots_flatten]
    omega
  rw [bytes, slice_append_left hroom, hparam, hslot]

/-- The region of argument number `k` is at its offset. -/
theorem slice_region (vh : FlatMem) {args : List Arg} {k : Nat} {a : Arg} (h : args[k]? = some a) :
    slice (bytes vh args) (offset args k) a.dataSize = a.region vh := by
  have hget : (args.map (Arg.region vh))[k]? = some (a.region vh) := by simp [h]
  have hregion := slice_flatten hget
  rw [← List.map_take, length_regions_flatten, Arg.length_region] at hregion
  have hstart : (zeros paramAreaOffset ++ (slots 0 args).flatten).length = dataStart args := by
    rw [List.length_append, length_zeros, length_slots_flatten, dataStart]
  rw [bytes, offset, ← hstart, slice_append_right, hregion]

@[simp] theorem offset_place (sp : BitVec 64) (off : Nat) (args : List Arg) (k : Nat) :
    offset (place sp off args) k = offset args k := by
  simp only [offset, dataStart, length_place, take_place, dataSize_place]

theorem dataSize_take_succ {args : List Arg} {k : Nat} {a : Arg} (h : args[k]? = some a) :
    dataSize (args.take (k + 1)) = dataSize (args.take k) + a.dataSize := by
  simp [dataSize, List.take_add_one, h]

theorem dataSize_take_le (args : List Arg) {j k : Nat} (h : j ≤ k) :
    dataSize (args.take j) ≤ dataSize (args.take k) := by
  have hsplit : args.take k = args.take j ++ (args.take k).drop j := by
    conv_lhs => rw [← List.take_append_drop j (args.take k), List.take_take, Nat.min_eq_left h]
  rw [hsplit]
  simp [dataSize]

/-- Regions are laid out in the order of the arguments. -/
theorem offset_add_le {args : List Arg} {j k : Nat} {a : Arg} (h : args[j]? = some a) (hjk : j < k) :
    offset args j + a.dataSize ≤ offset args k := by
  have hle := dataSize_take_le args hjk
  rw [dataSize_take_succ h] at hle
  unfold offset
  omega

theorem offset_add_le_size {args : List Arg} {k : Nat} {a : Arg} (h : args[k]? = some a) :
    offset args k + a.dataSize ≤ size args := by
  have hk : k < args.length := (List.getElem?_eq_some_iff.mp h).1
  have hle := offset_add_le h hk
  rwa [offset, offset, List.take_length] at hle

theorem offset_mod (args : List Arg) (k : Nat) : offset args k % 8 = 0 := by
  have hdata : dataSize (args.take k) % 8 = 0 := by
    induction args.take k with
    | nil => rfl
    | cons a args ih =>
        have ha : a.dataSize % 8 = 0 := by
          cases a with
          | onStack a => exact roundUp_mod a.len
          | _ => rfl
        simp only [dataSize, List.map_cons, List.sum_cons] at ih ⊢
        omega
  unfold offset dataStart paramAreaOffset
  omega

end Frame

/-! ## The layout after `setup` -/

/-- The 64-bit word an argument stands for. -/
def Arg.word : Arg → BitVec 64
  | .int T v => if T.signed then BitVec.ofInt 64 v.toInt else BitVec.ofNat 64 v.toNat
  | .double bits => bits
  | .float bits => BitVec.ofNat 64 (bits.toNat * 2 ^ 32)
  | .onStack a => a.vemva

theorem Arg.getRegVal_eq_word (a : Arg) : a.getRegVal = a.word := by
  cases a with
  | int T v => simp only [getRegVal, word, BitVec.signExtend, BitVec.ofNat_toNat]
  | float bits =>
      apply BitVec.eq_of_toNat_eq
      have hlt := (floatWord bits).isLt
      rw [floatWord_toNat] at hlt
      rw [getRegVal, word, floatWord_toNat, BitVec.toNat_ofNat, Nat.mod_eq_of_lt hlt]
  | _ => rfl

/-- Where the region of a placed stack argument is in the image at `sp`. -/
def ArgOnStack.offset (b : ArgOnStack) (sp : BitVec 64) : Nat := (b.vemva - sp).toNat

namespace CallArgs

/-- Argument number `k` is set to `a`. -/
def HasArg (ca : CallArgs) (k : Nat) (a : Arg) : Prop := ca.arguments[k]? = some (some a)

/-- The layout of a call: `ca` holds the frame for the arguments `args` that were set,
    for a call that lowered the stack pointer from `sp` to `sp'`. -/
structure Layout (vh : FlatMem) (args : List Arg) (sp sp' : BitVec 64) (ca : CallArgs) : Prop where
  /-- The frame fills the addresses from `sp'` up to `sp`. -/
  lowered : sp' = sp - BitVec.ofNat 64 ca.stackSize
  top : ca.stackTop = sp'
  size : ca.stackSize = paramAreaOffset + 8 * args.length + (args.map Arg.dataSize).sum
  sizeLt : ca.stackSize < 2 ^ 64
  image : ca.stackBuf.length = ca.stackSize
  /-- The arguments are the ones that were set, stack arguments with an address. -/
  numArgs : ca.arguments.length = args.length
  argument : ∀ (k : Nat) (a : Arg), args[k]? = some a → ∃ addr, ca.HasArg k (a.place addr)
  /-- Every region is aligned and in the data area. -/
  aligned : ∀ (k : Nat) (b : ArgOnStack), ca.HasArg k (.onStack b) → b.offset sp' % 8 = 0
  inside : ∀ (k : Nat) (b : ArgOnStack), ca.HasArg k (.onStack b) →
    paramAreaOffset + 8 * args.length ≤ b.offset sp' ∧ b.offset sp' + b.len ≤ ca.stackSize
  disjoint : ∀ (j k : Nat) (b c : ArgOnStack), j ≠ k →
    ca.HasArg j (.onStack b) → ca.HasArg k (.onStack c) →
    b.offset sp' + b.len ≤ c.offset sp' ∨ c.offset sp' + c.len ≤ b.offset sp'
  /-- A region holds the input buffer, or zeros. -/
  contents : ∀ (k : Nat) (b : ArgOnStack), ca.HasArg k (.onStack b) →
    slice ca.stackBuf (b.offset sp') b.len = if b.in_ then vh.read b.buff b.len else zeros b.len
  /-- The slot of an argument that is not passed in a register. -/
  slot : ∀ (k : Nat) (a : Arg), numArgsOnRegister ≤ k → ca.HasArg k a →
    slice ca.stackBuf (paramAreaOffset + 8 * k) 8 = a.slot
  /-- The registers hold the words of the first arguments. -/
  register : ∃ regs, ca.getRegVal = .ok regs ∧ regs.length = min args.length numArgsOnRegister ∧
    ∀ (k : Nat) (a : Arg), k < numArgsOnRegister → ca.HasArg k a → regs[k]? = some a.word

section Built
variable {vh : FlatMem} {sp : BitVec 64} {args : List Arg} {k : Nat}

/-- The arguments of the object that `setup` builds. -/
theorem built_argument {x : Arg} :
    (built vh sp args).HasArg k x ↔
      ∃ a, args[k]? = some a ∧ x = a.place (sp + BitVec.ofNat 64 (Frame.offset args k)) := by
  have hplace (a : Arg) (ha : args[k]? = some a) :
      (built vh sp args).arguments[k]? =
        some (some (a.place (sp + BitVec.ofNat 64 (Frame.offset args k)))) := by
    simp [built, Frame.getElem?_place sp _ ha, Frame.offset]
  constructor
  · intro hx
    have hk : k < args.length := by
      have hlt := (List.getElem?_eq_some_iff.mp hx).1
      simpa [built] using hlt
    have ha : args[k]? = some args[k] := List.getElem?_eq_getElem hk
    refine ⟨args[k], ha, ?_⟩
    rw [HasArg, hplace _ ha] at hx
    simpa using hx.symm
  · rintro ⟨a, ha, rfl⟩
    exact hplace a ha

/-- A stack argument of the object that `setup` builds: the one that was set, with its
    region at its offset. -/
theorem built_onStack {b : ArgOnStack} (hsmall : Frame.size args < 2 ^ 31)
    (hb : (built vh sp args).HasArg k (.onStack b)) :
    ∃ a, args[k]? = some (.onStack a) ∧
      b = { a with vemva := sp + BitVec.ofNat 64 (Frame.offset args k) } ∧
      b.offset sp = Frame.offset args k := by
  obtain ⟨x, hx, hplaced⟩ := built_argument.mp hb
  cases x with
  | onStack a =>
      cases hplaced
      refine ⟨a, hx, rfl, ?_⟩
      have hle := Frame.offset_add_le_size hx
      rw [ArgOnStack.offset, BitVec.add_comm, BitVec.add_sub_cancel, BitVec.toNat_ofNat,
        Nat.mod_eq_of_lt (by omega)]
  | _ => cases hplaced

theorem built_getRegVal :
    (built vh sp args).getRegVal =
      .ok (((Frame.place sp (Frame.dataStart args) args).take numArgsOnRegister).map
        Arg.getRegVal) := by
  have h : deref { built vh sp args with
      arguments := ((Frame.place sp (Frame.dataStart args) args).take numArgsOnRegister).map some } =
      .ok _ := deref_map_some rfl
  unfold deref at h
  unfold getRegVal
  rw [show (built vh sp args).arguments.take numArgsOnRegister = _ from (List.map_take ..).symm]
  split at h
  · rename_i hmap
    cases h
    rw [hmap]
  · cases h

end Built

/-- For every list of arguments, a `setup` that passes its assertion lays out the frame
    correctly. -/
theorem setup_layout {ca ca' : CallArgs} {args : List Arg} {vh : FlatMem} {sp sp' : BitVec 64}
    (hset : ca.arguments = args.map some) (hok : ca.setup vh sp = .ok (ca', sp')) :
    Layout vh args sp sp' ca' := by
  obtain ⟨hsmall, hr⟩ := (setup_ok_iff hset vh sp _).mp hok
  cases hr
  set sp' := sp - BitVec.ofNat 64 (Frame.size args)
  constructor
  case lowered => rfl
  case top => rfl
  case size => rfl
  case sizeLt => exact Nat.lt_trans hsmall (by decide)
  case image => simp [built, Frame.length_bytes, Frame.size]
  case numArgs => simp [built]
  case argument =>
    intro k a ha
    exact ⟨_, built_argument.mpr ⟨a, ha, rfl⟩⟩
  case aligned =>
    intro k b hb
    obtain ⟨a, ha, rfl, hoff⟩ := built_onStack hsmall hb
    rw [hoff]
    exact Frame.offset_mod args k
  case inside =>
    intro k b hb
    obtain ⟨a, ha, rfl, hoff⟩ := built_onStack hsmall hb
    have hle := Frame.offset_add_le_size ha
    have hround := le_roundUp a.len
    rw [hoff]
    refine ⟨Nat.le_add_right _ _, ?_⟩
    simp only [Arg.dataSize, built] at hle ⊢
    omega
  case disjoint =>
    intro j k b c hjk hb hc
    obtain ⟨a, ha, rfl, hoff⟩ := built_onStack hsmall hb
    obtain ⟨d, hd, rfl, hoff'⟩ := built_onStack hsmall hc
    rw [hoff, hoff']
    have hround := le_roundUp a.len
    have hround' := le_roundUp d.len
    rcases Nat.lt_or_gt_of_ne hjk with hlt | hgt
    · have hle := Frame.offset_add_le ha hlt
      simp only [Arg.dataSize] at hle
      exact .inl (by simp only; omega)
    · have hle := Frame.offset_add_le hd hgt
      simp only [Arg.dataSize] at hle
      exact .inr (by simp only; omega)
  case contents =>
    intro k b hb
    obtain ⟨a, ha, rfl, hoff⟩ := built_onStack hsmall hb
    have hregion := Frame.slice_region vh
      (Frame.getElem?_place sp' (Frame.dataStart args) ha)
    rw [Frame.offset_place, Arg.dataSize_place, Arg.region_place] at hregion
    rw [hoff, ← take_slice _ (le_roundUp a.len)]
    simp only [built]
    rw [show roundUp a.len = (Arg.onStack a).dataSize from rfl, hregion]
    cases hin : a.in_ <;> simp [Arg.region, hin]
  case slot =>
    intro k a hk ha
    obtain ⟨x, hx, rfl⟩ := built_argument.mp ha
    have hslot := Frame.slice_slot vh (Frame.getElem?_place sp' (Frame.dataStart args) hx)
    rwa [Arg.slotAt, if_neg (Nat.not_lt.mpr hk)] at hslot
  case register =>
    refine ⟨_, built_getRegVal, by simp [Nat.min_comm], ?_⟩
    intro k a hk ha
    obtain ⟨x, hx, rfl⟩ := built_argument.mp ha
    rw [List.getElem?_map, List.getElem?_take_of_lt hk, Frame.getElem?_place _ _ hx,
      Option.map_some, Arg.getRegVal_eq_word]
    rfl

/-- Eleven arguments of all classes, the last two on the stack: a short scalar and a
    buffer whose length is no multiple of eight. -/
theorem setup_layout_mixed :
    let args : List Arg :=
      [.int .int8 0xfe, .int .uint8 0xa0, .int .int16 0xfffe, .int .uint32 0xa0a0a0a0,
       .float 0x3f800000, .double 0x3ff0000000000000,
       .onStack ⟨0x100, 13, by decide, true, false, 0⟩,
       .onStack ⟨0x200, 4, by decide, false, true, 0⟩, .int .int64 5, .int .int16 0xfffe,
       .onStack ⟨0x300, 10, by decide, true, true, 0⟩]
    let vh : FlatMem := fun x => BitVec.ofNat 8 x
    ∃ ca' sp', setup ⟨args.map some, 0, 0, [], false, false⟩ vh 0x10000 = .ok (ca', sp') ∧
      Layout vh args 0x10000 sp' ca' := by
  intro args vh
  have hset : (⟨args.map some, 0, 0, [], false, false⟩ : CallArgs).arguments = args.map some := rfl
  have hok := (setup_ok_iff hset vh 0x10000 _).mpr ⟨by decide, rfl⟩
  exact ⟨_, _, hok, setup_layout hset hok⟩

end CallArgs

end Veo
