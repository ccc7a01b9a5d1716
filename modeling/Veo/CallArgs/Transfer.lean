-- SUMMARY: Copying the output arguments back: what copyout leaves in the VH buffers.
import Mathlib.Data.List.Pairwise
import Veo.CallArgs.Layout

/-!
# Copying arguments out

After the call, `copyout` reads the frame back into the scratch buffer and copies each
output argument from its region to its VH buffer. The offset of the region is computed
again from the address that `setup` recorded.
-/

namespace Veo

open Bytes

namespace Arg

/-- The VH buffers of two stack arguments do not overlap. -/
def VhDisjoint : Arg → Arg → Prop
  | .onStack b, .onStack c => b.buff + b.len ≤ c.buff ∨ c.buff + c.len ≤ b.buff
  | _, _ => True

instance : Std.Symm VhDisjoint where
  symm a b h := by cases a <;> cases b <;> first | trivial | exact Or.symm h

/-- The argument writes to VH address `x` on copy-out. -/
def WritesAt (a : Arg) (x : Nat) : Prop :=
  match a with
  | .onStack b => b.out_ = true ∧ b.buff ≤ x ∧ x < b.buff + b.len
  | _ => False

/-- Copying one argument out changes nothing but its own buffer. -/
theorem copyout_outside {a : Arg} {sp : BitVec 64} {img : List Byte} {vh : FlatMem} {x : Nat}
    (h : ¬ a.WritesAt x) : a.copyoutFromStackImage sp img vh x = vh x := by
  cases a with
  | onStack b =>
      cases hout : b.out_ with
      | false => simp [copyoutFromStackImage, hout]
      | true =>
          have hlen : (slice img (b.vemva - sp).toNat b.len).length ≤ b.len := by
            simp [slice]
          simp only [WritesAt, hout, true_and] at h
          have hwrite : vh.write b.buff (slice img (b.vemva - sp).toNat b.len) x = vh x :=
            FlatMem.write_of_outside vh (by omega)
          simpa [copyoutFromStackImage, hout] using hwrite
  | _ => rfl

end Arg

namespace CallArgs

/-- The loop of `copyout` over the arguments. -/
def copyoutAll (sp : BitVec 64) (img : List Byte) (args : List Arg) (vh : FlatMem) : FlatMem :=
  args.foldl (fun vh a => a.copyoutFromStackImage sp img vh) vh

theorem copyoutAll_outside {sp : BitVec 64} {img : List Byte} {args : List Arg} (vh : FlatMem)
    {x : Nat} (h : ∀ a ∈ args, ¬ a.WritesAt x) : copyoutAll sp img args vh x = vh x := by
  induction args generalizing vh with
  | nil => rfl
  | cons a args ih =>
      have hrest := ih (a.copyoutFromStackImage sp img vh)
        fun b hb => h b (List.mem_cons_of_mem a hb)
      exact hrest.trans (Arg.copyout_outside (h a List.mem_cons_self))

/-- Every output buffer gets its part of the image: later arguments have disjoint
    buffers, so they do not overwrite it. -/
theorem copyoutAll_read {sp : BitVec 64} {img : List Byte} {args : List Arg} (vh : FlatMem)
    {b : ArgOnStack} (hdisj : args.Pairwise Arg.VhDisjoint) (hb : .onStack b ∈ args)
    (hout : b.out_ = true) (hfit : b.offset sp + b.len ≤ img.length) :
    (copyoutAll sp img args vh).read b.buff b.len = slice img (b.offset sp) b.len := by
  induction args generalizing vh with
  | nil => cases hb
  | cons a args ih =>
      obtain ⟨hhead, htail⟩ := List.pairwise_cons.mp hdisj
      cases hb with
      | head =>
          have hrest : (copyoutAll sp img (.onStack b :: args) vh).read b.buff b.len =
              (vh.write b.buff (slice img (b.offset sp) b.len)).read b.buff b.len := by
            apply FlatMem.read_congr
            intro i hi
            have hmiss : ∀ c ∈ args, ¬ c.WritesAt (b.buff + i) := by
              intro c hc hw
              have hd := hhead c hc
              cases c with
              | onStack c =>
                  obtain ⟨-, hlo, hhi⟩ := hw
                  simp only [Arg.VhDisjoint] at hd
                  omega
              | _ => exact hw
            have hthis : (Arg.onStack b).copyoutFromStackImage sp img vh =
                vh.write b.buff (slice img (b.offset sp) b.len) := by
              simp [Arg.copyoutFromStackImage, hout, ArgOnStack.offset]
            rw [← hthis]
            exact copyoutAll_outside ((Arg.onStack b).copyoutFromStackImage sp img vh) hmiss
          have hsame := FlatMem.read_write_same vh b.buff (slice img (b.offset sp) b.len)
          rw [length_slice hfit] at hsame
          rw [hrest, hsame]
      | tail _ hmem => exact ih (a.copyoutFromStackImage sp img vh) htail hmem

section Copyout
variable {σ : Type}

/-- A read transfer from VE memory `ve`: when it reports success, the buffer holds the
    bytes of the memory. -/
def Receives (ve : WordMem 64)
    (xfer : BitVec 64 → Nat → List Byte → σ → Int × List Byte × σ) : Prop :=
  ∀ a n buf s, (xfer a n buf s).1 = 0 → (xfer a n buf s).2.1 = ve.read a n

/-- The address of argument number `k` that the callee gets: in its register, or in its
    slot of the image. -/
def givenAddress (ca : CallArgs) (k : Nat) : Option (BitVec 64) :=
  if k < numArgsOnRegister then
    match ca.getRegVal with
    | .ok regs => regs[k]?
    | .error _ => none
  else
    some (BitVec.ofNat 64 (toNatLE (slice ca.stackBuf (paramAreaOffset + 8 * k) 8)))

end Copyout

/-- The callee gets the address of every stack argument. -/
theorem Layout.givenAddress_eq {vh : FlatMem} {args : List Arg} {sp sp' : BitVec 64}
    {ca : CallArgs} (h : Layout vh args sp sp' ca) {k : Nat} {b : ArgOnStack}
    (hb : ca.HasArg k (.onStack b)) : ca.givenAddress k = some b.vemva := by
  unfold givenAddress
  split
  · rename_i hk
    obtain ⟨regs, hregs, -, hword⟩ := h.register
    rw [hregs]
    exact hword k _ hk hb
  · rename_i hk
    rw [h.slot k _ (Nat.le_of_not_lt hk) hb, Arg.slot, toNatLE_ofNatLE,
      Nat.mod_eq_of_lt (by simpa using b.vemva.isLt), BitVec.ofNat_toNat, BitVec.setWidth_eq]

/-! ## Placing the arguments keeps their VH buffers -/

theorem vhDisjoint_place {a b : Arg} {x y : BitVec 64} :
    (a.place x).VhDisjoint (b.place y) ↔ a.VhDisjoint b := by
  cases a <;> cases b <;> rfl

theorem writesAt_place {a : Arg} {addr : BitVec 64} {x : Nat} :
    (a.place addr).WritesAt x ↔ a.WritesAt x := by
  cases a <;> rfl

theorem mem_place {sp : BitVec 64} {off : Nat} {args : List Arg} {b : Arg}
    (h : b ∈ Frame.place sp off args) : ∃ a ∈ args, ∃ addr, b = a.place addr := by
  induction args generalizing off with
  | nil => cases h
  | cons a args ih =>
      rcases List.mem_cons.mp h with rfl | hrest
      · exact ⟨a, List.mem_cons_self, _, rfl⟩
      · obtain ⟨c, hc, addr, rfl⟩ := ih hrest
        exact ⟨c, List.mem_cons_of_mem a hc, addr, rfl⟩

theorem pairwise_place {sp : BitVec 64} {off : Nat} {args : List Arg}
    (h : args.Pairwise Arg.VhDisjoint) : (Frame.place sp off args).Pairwise Arg.VhDisjoint := by
  induction args generalizing off with
  | nil => exact .nil
  | cons a args ih =>
      obtain ⟨hhead, htail⟩ := List.pairwise_cons.mp h
      refine List.pairwise_cons.mpr ⟨?_, ih htail⟩
      intro b hb
      obtain ⟨c, hc, addr, rfl⟩ := mem_place hb
      exact vhDisjoint_place.mpr (hhead c hc)

theorem receives_place {a : Arg} {addr : BitVec 64} : (a.place addr).receives = a.receives := by
  cases a <;> rfl

/-! ## Copy-out -/

theorem copyout_of_not_copiedOut {σ : Type} {ca : CallArgs}
    {xfer : BitVec 64 → Nat → List Byte → σ → Int × List Byte × σ} (h : ca.copiedOut = false)
    (vh : FlatMem) (s : σ) : ca.copyout xfer vh s = .ok (ca, vh, s) := by
  simp [copyout, h, pure, Except.pure]

theorem copyout_of_copiedOut {σ : Type} {ca : CallArgs} {args : List Arg}
    (xfer : BitVec 64 → Nat → List Byte → σ → Int × List Byte × σ) (h : ca.copiedOut = true)
    (hset : ca.arguments = args.map some) (vh : FlatMem) (s : σ) :
    let r := xfer ca.stackTop ca.stackSize ca.stackBuf s
    ca.copyout xfer vh s =
      .ok ({ ca with stackBuf := r.2.1 }, copyoutAll ca.stackTop r.2.1 args vh, r.2.2) := by
  simp [copyout, h, deref_map_some hset, copyoutAll, bind, Except.bind, pure, Except.pure]

/-- A successful copy-out returns exactly what the VE left: every output buffer holds the
    bytes at the address the callee was given for it, and nothing else changes. Without
    output arguments there is no transfer. -/
theorem copyout_exact {σ : Type} {ca ca' : CallArgs} {args : List Arg} {vh₀ : FlatMem}
    {sp sp' : BitVec 64} {ve : WordMem 64}
    {xfer : BitVec 64 → Nat → List Byte → σ → Int × List Byte × σ}
    (hset : ca.arguments = args.map some) (hok : ca.setup vh₀ sp = .ok (ca', sp'))
    (hdisj : args.Pairwise Arg.VhDisjoint) (hrecv : Receives ve xfer) (vh : FlatMem) (s : σ) :
    ((∀ a ∈ args, a.receives = false) → ca'.copyout xfer vh s = .ok (ca', vh, s)) ∧
    ((xfer ca'.stackTop ca'.stackSize ca'.stackBuf s).1 = 0 →
      ∃ ca'' vh' s', ca'.copyout xfer vh s = .ok (ca'', vh', s') ∧
        (∀ (k : Nat) (b : ArgOnStack), ca'.HasArg k (.onStack b) → b.out_ = true →
          (∃ addr, ca'.givenAddress k = some addr ∧
            vh'.read b.buff b.len = ve.read addr b.len) ∧
          b.offset ca'.stackTop + b.len ≤ ca'.stackSize) ∧
        (∀ (k : Nat) (b : ArgOnStack), ca'.HasArg k (.onStack b) → b.out_ = false →
          vh'.read b.buff b.len = vh.read b.buff b.len) ∧
        (∀ x, (∀ a ∈ args, ¬ a.WritesAt x) → vh' x = vh x)) := by
  have hlayout := setup_layout hset hok
  obtain ⟨hsmall, hr⟩ := (setup_ok_iff hset vh₀ sp _).mp hok
  obtain ⟨hca, rfl⟩ := Prod.mk.inj hr
  set sp' := sp - BitVec.ofNat 64 (Frame.size args)
  set placed := Frame.place sp' (Frame.dataStart args) args with hplaced
  have hargs : ca'.arguments = placed.map some := by rw [hca]; rfl
  have hflag : ca'.copiedOut = args.any Arg.receives := by rw [hca]; rfl
  have htop : ca'.stackTop = sp' := hlayout.top
  have hnone (h : ∀ a ∈ args, a.receives = false) : ca'.copyout xfer vh s = .ok (ca', vh, s) := by
    apply copyout_of_not_copiedOut
    rw [hflag]
    exact List.any_eq_false.mpr fun a ha => by simp [h a ha]
  have hmem {k : Nat} {b : ArgOnStack} (hb : ca'.HasArg k (.onStack b)) : .onStack b ∈ placed := by
    rw [HasArg, hargs, List.getElem?_map, Option.map_eq_some_iff] at hb
    obtain ⟨x, hx, hxb⟩ := hb
    cases hxb
    exact List.mem_of_getElem? hx
  refine ⟨hnone, fun hzero => ?_⟩
  cases hcopied : ca'.copiedOut with
  | false =>
      have hrec : ∀ a ∈ args, a.receives = false := by
        intro a ha
        rw [hflag] at hcopied
        simpa using List.any_eq_false.mp hcopied a ha
      refine ⟨ca', vh, s, hnone hrec, ?_, fun _ _ _ _ => rfl, fun _ _ => rfl⟩
      intro k b hb hout
      obtain ⟨a, ha, addr, hplace⟩ := mem_place (hmem hb)
      have hreceives := congrArg Arg.receives hplace
      rw [receives_place, hrec a ha] at hreceives
      exact absurd (hout.symm.trans hreceives) (by decide)
  | true =>
      have hbuf := hrecv _ _ _ _ hzero
      have hrun := copyout_of_copiedOut xfer hcopied hargs vh s
      simp only [hbuf] at hrun
      have hpair : placed.Pairwise Arg.VhDisjoint := pairwise_place hdisj
      refine ⟨_, _, _, hrun, ?_, ?_, ?_⟩
      · intro k b hb hout
        have hfit := (hlayout.inside k b hb).2
        refine ⟨⟨b.vemva, hlayout.givenAddress_eq hb, ?_⟩, by rw [htop]; exact hfit⟩
        rw [htop, copyoutAll_read _ hpair (hmem hb) hout (by simpa using hfit),
          WordMem.slice_read _ _ hfit, ArgOnStack.offset, BitVec.ofNat_toNat, BitVec.setWidth_eq,
          BitVec.add_comm, BitVec.sub_add_cancel]
      · intro k b hb hout
        apply FlatMem.read_congr
        intro i hi
        apply copyoutAll_outside
        intro c hc hw
        cases c with
        | onStack c =>
            obtain ⟨hcout, hlo, hhi⟩ := hw
            have hne : Arg.onStack b ≠ .onStack c := by
              intro heq
              cases heq
              exact absurd (hout.symm.trans hcout) (by decide)
            have hd : (Arg.onStack b).VhDisjoint (.onStack c) :=
              hpair.forall (hmem hb) hc hne
            simp only [Arg.VhDisjoint] at hd
            omega
        | _ => exact hw
      · intro x hx
        apply copyoutAll_outside
        intro c hc hw
        obtain ⟨a, ha, addr, rfl⟩ := mem_place hc
        exact hx a ha (writesAt_place.mp hw)

/-- An output buffer in a register and one in a slot, next to an input buffer. -/
theorem copyout_exact_mixed :
    let args : List Arg :=
      [.onStack ⟨0x100, 14, by decide, true, false, 0⟩, .onStack ⟨0x200, 4, by decide, true, true, 0⟩,
       .onStack ⟨0x300, 4, by decide, false, true, 0⟩, .double 0, .double 1, .double 2, .double 3,
       .double 4, .onStack ⟨0x400, 10, by decide, false, true, 0⟩, .int .uint32 10]
    let ve : WordMem 64 := fun x => BitVec.ofNat 8 x.toNat
    let vh : FlatMem := fun _ => 0
    ∃ ca' sp', setup ⟨args.map some, 0, 0, [], false, false⟩ vh 0x10000 = .ok (ca', sp') ∧
      ∃ ca'' vh', ca'.copyout (fun a n _ s => (0, ve.read a n, s)) vh () = .ok (ca'', vh', ()) ∧
        ∃ addr, ca'.givenAddress 8 = some addr ∧ vh'.read 0x400 10 = ve.read addr 10 := by
  intro args ve vh
  have hset : (⟨args.map some, 0, 0, [], false, false⟩ : CallArgs).arguments = args.map some := rfl
  have hok := (setup_ok_iff hset vh 0x10000 _).mpr ⟨by decide, rfl⟩
  have hdisj : args.Pairwise Arg.VhDisjoint := by simp [args, Arg.VhDisjoint]
  have hrecv : Receives ve fun a n _ (s : Unit) => (0, ve.read a n, s) := fun _ _ _ _ _ => rfl
  obtain ⟨ca'', vh', s', hrun, hout, -, -⟩ := (copyout_exact hset hok hdisj hrecv vh ()).2 rfl
  have harg : (built vh (0x10000 - BitVec.ofNat 64 (Frame.size args)) args).HasArg 8 _ :=
    built_argument.mpr ⟨_, rfl, rfl⟩
  exact ⟨_, _, hok, ca'', vh', hrun, (hout 8 _ harg rfl).1⟩

end CallArgs

end Veo
