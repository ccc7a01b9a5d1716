-- SUMMARY: The word of a scalar argument in a register and in a stack slot, and when the two agree.
import Veo.CallArgs.Layout

/-!
# The word of an argument

A scalar argument reaches the callee in a register or in its slot of the frame. The
register gets the value converted to `int64_t`, the slot gets the bytes of the value
padded with zeros, so the two words differ for a negative value of a narrow type.
-/

namespace Veo

open Bytes

namespace Arg

/-- The argument is a value, not a buffer. -/
def isScalar : Arg → Bool
  | .int _ _ | .double _ | .float _ => true
  | .onStack _ => false

/-- A negative value of a signed type that is narrower than a word. -/
def narrowNegative : Arg → Bool
  | .int T v => T.signed && decide (T.size < 8) && decide (v.toInt < 0)
  | .double _ | .float _ | .onStack _ => false

theorem place_of_isScalar {a : Arg} (h : a.isScalar = true) (addr : BitVec 64) :
    a.place addr = a := by
  cases a with
  | onStack b => cases h
  | _ => rfl

/-- The slot of an integer holds its bits, extended by zeros. -/
theorem toNatLE_slot_int (T : IntType) (v : BitVec (8 * T.size)) :
    toNatLE (Arg.int T v).slot = v.toNat := by
  have hlt : v.toNat < 256 ^ T.size := by
    have h := v.isLt
    rwa [Nat.pow_mul] at h
  rw [slot, toNatLE_append_zeros, toNatLE_ofNatLE, Nat.mod_eq_of_lt hlt]

/-- Sign extension of a value to a word is its extension by zeros, except for a negative
    value of a narrower type. -/
theorem ofNat_toNat_eq_ofInt_toInt {n : Nat} (v : BitVec n) (hn : n ≤ 64) :
    BitVec.ofNat 64 v.toNat = BitVec.ofInt 64 v.toInt ↔ ¬ (n < 64 ∧ v.toInt < 0) := by
  have hlt : v.toNat < 2 ^ n := v.isLt
  have hpow : 2 ^ n ≤ 2 ^ 64 := Nat.pow_le_pow_right (by decide) hn
  have hnarrow : n < 64 ↔ 2 ^ n < 2 ^ 64 := (Nat.pow_lt_pow_iff_right (by decide)).symm
  rw [hnarrow, BitVec.toInt_eq_toNat_cond, ← BitVec.toNat_inj, BitVec.toNat_ofNat,
    BitVec.toNat_ofInt]
  -- the power is an unknown bound for the arithmetic
  generalize 2 ^ n = bound at *
  split <;> omega

/-- The word in the slot of a scalar is the word of its register form, except for a
    negative value of a narrow type. -/
theorem ofNat_toNatLE_slot {a : Arg} (h : a.isScalar = true) :
    BitVec.ofNat 64 (toNatLE a.slot) = a.word ↔ a.narrowNegative = false := by
  cases a with
  | int T v =>
      have hwide : 8 * T.size ≤ 64 := by cases T <;> decide
      have hext := ofNat_toNat_eq_ofInt_toInt v hwide
      rw [toNatLE_slot_int, word]
      cases hsigned : T.signed with
      | true =>
          have hnarrow : 8 * T.size < 64 ↔ T.size < 8 := by omega
          rw [if_pos rfl, hext, hnarrow]
          simp [narrowNegative, hsigned]
      | false => simp [narrowNegative, hsigned]
  | double bits =>
      have hlt : bits.toNat < 256 ^ 8 := bits.isLt
      rw [slot, toNatLE_ofNatLE, Nat.mod_eq_of_lt hlt]
      simp [word, narrowNegative]
  | float bits =>
      have hlt : (floatWord bits).toNat < 256 ^ 8 := (floatWord bits).isLt
      rw [slot, ← ofNatLE_floatWord, toNatLE_ofNatLE, Nat.mod_eq_of_lt hlt, floatWord_toNat]
      simp [word, narrowNegative]
  | onStack b => cases h

end Arg

namespace CallArgs

/-- The word in the slot of argument number `k`, as the callee reads it. -/
def slotWord (ca : CallArgs) (k : Nat) : BitVec 64 :=
  BitVec.ofNat 64 (toNatLE (slice ca.stackBuf (paramAreaOffset + 8 * k) 8))

/-- A scalar that is set in the argument list has its word in its register. -/
theorem Layout.regVal_scalar {vh : FlatMem} {args : List Arg} {sp sp' : BitVec 64}
    {ca : CallArgs} (h : Layout vh args sp sp' ca) {i : Nat} {a : Arg}
    (hscalar : a.isScalar = true) (hi : i < numArgsOnRegister) (ha : args[i]? = some a) :
    ∃ regs, ca.getRegVal = .ok regs ∧ regs[i]? = some a.word := by
  obtain ⟨regs, hregs, -, hword⟩ := h.register
  obtain ⟨addr, harg⟩ := h.argument i a ha
  rw [Arg.place_of_isScalar hscalar] at harg
  exact ⟨regs, hregs, hword i a hi harg⟩

/-- A scalar that is set in the argument list has its bytes in its slot. -/
theorem Layout.slotWord_scalar {vh : FlatMem} {args : List Arg} {sp sp' : BitVec 64}
    {ca : CallArgs} (h : Layout vh args sp sp' ca) {j : Nat} {a : Arg}
    (hscalar : a.isScalar = true) (hj : numArgsOnRegister ≤ j) (ha : args[j]? = some a) :
    ca.slotWord j = BitVec.ofNat 64 (toNatLE a.slot) := by
  obtain ⟨addr, harg⟩ := h.argument j a ha
  rw [Arg.place_of_isScalar hscalar] at harg
  rw [slotWord, h.slot j a hj harg]

/-- A scalar means the same in register `i` of one call and in slot `j` of another,
    except for a negative value of a narrow signed type. -/
theorem slotWord_eq_register_iff {ca₁ ca₁' ca₂ ca₂' : CallArgs} {args₁ args₂ : List Arg}
    {vh₁ vh₂ : FlatMem} {sp₁ sp₁' sp₂ sp₂' : BitVec 64} {a : Arg} {i j : Nat}
    (hscalar : a.isScalar = true) (hi : i < numArgsOnRegister) (hj : numArgsOnRegister ≤ j)
    (hset₁ : ca₁.arguments = args₁.map some) (hok₁ : ca₁.setup vh₁ sp₁ = .ok (ca₁', sp₁'))
    (hset₂ : ca₂.arguments = args₂.map some) (hok₂ : ca₂.setup vh₂ sp₂ = .ok (ca₂', sp₂'))
    (ha₁ : args₁[i]? = some a) (ha₂ : args₂[j]? = some a) :
    (∃ regs, ca₁'.getRegVal = .ok regs ∧ regs[i]? = some (ca₂'.slotWord j)) ↔
      a.narrowNegative = false := by
  obtain ⟨regs, hregs, hword⟩ := (setup_layout hset₁ hok₁).regVal_scalar hscalar hi ha₁
  have hslot := (setup_layout hset₂ hok₂).slotWord_scalar hscalar hj ha₂
  have hsame := Arg.ofNat_toNatLE_slot hscalar
  rw [hslot]
  constructor
  · rintro ⟨regs', hregs', hword'⟩
    cases hregs.symm.trans hregs'
    exact hsame.mp (Option.some.inj (hword'.symm.trans hword))
  · intro hnot
    exact ⟨regs, hregs, by rw [hword, hsame.mpr hnot]⟩

/-- The argument list of nine times the same argument. -/
def nine (a : Arg) : CallArgs := ⟨List.replicate 9 (some a), 0, 0, [], false, false⟩

theorem setup_nine_scalar (vh : FlatMem) {a : Arg} (h : a.isScalar = true) :
    ∃ ca sp, (nine a).setup vh 0x10000 = .ok (ca, sp) := by
  have hset : (nine a).arguments = (List.replicate 9 a).map some := by simp [nine]
  have hdata : Frame.dataSize (List.replicate 9 a) = 0 := by
    cases a with
    | onStack b => cases h
    | _ => simp [Frame.dataSize, Arg.dataSize]
  have hsmall : Frame.size (List.replicate 9 a) < 2 ^ 31 := by
    rw [Frame.size, hdata, List.length_replicate]
    decide
  exact ⟨_, _, (setup_ok_iff hset vh 0x10000 _).mpr ⟨hsmall, rfl⟩⟩

/-- An unsigned byte in register 1 and in slot 8. -/
theorem slotWord_eq_register_uint8 :
    ∃ ca sp regs, (nine (.int .uint8 0xa0)).setup (fun _ => 0) 0x10000 = .ok (ca, sp) ∧
      ca.getRegVal = .ok regs ∧ regs[1]? = some (ca.slotWord 8) := by
  obtain ⟨ca, sp, hok⟩ := setup_nine_scalar (fun _ => 0) (a := .int .uint8 0xa0) rfl
  have hset : (nine (.int .uint8 0xa0)).arguments = (List.replicate 9 (.int .uint8 0xa0)).map some :=
    rfl
  obtain ⟨regs, hregs, hword⟩ :=
    (slotWord_eq_register_iff (i := 1) (j := 8) rfl (by decide) (by decide) hset hok hset hok
      rfl rfl).mpr rfl
  exact ⟨ca, sp, regs, hok, hregs, hword⟩

/-- The byte `-2` is the word `-2` in a register and the word `254` in a slot. -/
theorem slotWord_ne_register_int8 :
    ∃ ca sp regs, (nine (.int .int8 0xfe)).setup (fun _ => 0) 0x10000 = .ok (ca, sp) ∧
      ca.getRegVal = .ok regs ∧ regs[0]? = some 0xfffffffffffffffe ∧ ca.slotWord 8 = 0xfe := by
  obtain ⟨ca, sp, hok⟩ := setup_nine_scalar (fun _ => 0) (a := .int .int8 0xfe) rfl
  have hset : (nine (.int .int8 0xfe)).arguments = (List.replicate 9 (.int .int8 0xfe)).map some := rfl
  have hlayout := setup_layout hset hok
  obtain ⟨regs, hregs, hword⟩ := hlayout.regVal_scalar (i := 0) rfl (by decide) rfl
  have hslot := hlayout.slotWord_scalar (j := 8) rfl (by decide) rfl
  exact ⟨ca, sp, regs, hok, hregs, hword, hslot⟩

end CallArgs

end Veo
