-- SUMMARY: Using one arguments object again and again: setup does not depend on what was done with the object before.
import Veo.CallArgs.Layout

/-!
# Reusing an arguments object

A `CallArgs` keeps the image, its address and two flags between its operations, and
every stack argument keeps the address of its region. The constructors leave most of
these members indeterminate. `setup` writes each of them before anything reads it, so
that its result depends on the arguments as they were set and on nothing else.
-/

namespace Veo

open Bytes

/-! ## The arguments as they were set -/

/-- The argument as it was set, without the address of its region. -/
def Arg.given (a : Arg) : Arg := a.place 0

namespace Arg

@[simp] theorem given_place (a : Arg) (addr : BitVec 64) : (a.place addr).given = a.given := by
  cases a <;> rfl

@[simp] theorem place_given (a : Arg) (addr : BitVec 64) : a.given.place addr = a.place addr := by
  cases a <;> rfl

@[simp] theorem dataSize_given (a : Arg) : a.given.dataSize = a.dataSize := dataSize_place a 0

@[simp] theorem sends_given (n : Nat) (a : Arg) : a.given.sends n = a.sends n := by
  cases a <;> rfl

@[simp] theorem receives_given (a : Arg) : a.given.receives = a.receives := by
  cases a <;> rfl

end Arg

namespace Frame

@[simp] theorem place_map_given (sp : BitVec 64) (off : Nat) (args : List Arg) :
    place sp off (args.map Arg.given) = place sp off args := by
  induction args generalizing off with
  | nil => rfl
  | cons a args ih => simp [place, ih]

@[simp] theorem map_given_place (sp : BitVec 64) (off : Nat) (args : List Arg) :
    (place sp off args).map Arg.given = args.map Arg.given := by
  induction args generalizing off with
  | nil => rfl
  | cons a args ih => simp [place, ih]

@[simp] theorem dataStart_map_given (args : List Arg) :
    dataStart (args.map Arg.given) = dataStart args := by
  simp [dataStart]

@[simp] theorem size_map_given (args : List Arg) : size (args.map Arg.given) = size args := by
  have hsizes : (args.map Arg.given).map Arg.dataSize = args.map Arg.dataSize := by
    rw [List.map_map]
    exact List.map_congr_left fun a _ => Arg.dataSize_given a
  simp only [size, dataSize, hsizes, List.length_map]

end Frame

namespace CallArgs

/-- The arguments of the object as they were set. -/
def given (ca : CallArgs) : List (Option Arg) := ca.arguments.map (Option.map Arg.given)

/-! ## `setup` depends on the given arguments only -/

theorem any_sends_given (args : List Arg) :
    ((args.map Arg.given).zipIdx.any fun p => p.1.sends p.2) =
      args.zipIdx.any fun p => p.1.sends p.2 := by
  simp only [List.zipIdx_map, List.any_map]
  congr 1
  funext p
  exact Arg.sends_given p.2 p.1

theorem any_receives_given (args : List Arg) :
    (args.map Arg.given).any Arg.receives = args.any Arg.receives := by
  simp only [List.any_map]
  congr 1
  funext a
  exact Arg.receives_given a

/-- The object that `setup` builds depends on the arguments as they were set. -/
theorem built_given (vh : FlatMem) (sp : BitVec 64) (args : List Arg) :
    built vh sp (args.map Arg.given) = built vh sp args := by
  simp only [built, Frame.dataStart_map_given, Frame.place_map_given, Frame.size_map_given,
    any_sends_given, any_receives_given]

/-- The given arguments of an object whose arguments are all set. -/
theorem given_map_some {ca : CallArgs} {args : List Arg} (h : ca.arguments = args.map some) :
    ca.given = (args.map Arg.given).map some := by
  simp [given, h]

theorem arguments_of_given {l : List (Option Arg)} {args : List Arg}
    (h : l.map (Option.map Arg.given) = args.map some) :
    ∃ args' : List Arg, l = args'.map some ∧ args'.map Arg.given = args := by
  induction args generalizing l with
  | nil => exact ⟨[], by simpa using h, rfl⟩
  | cons a args ih =>
      obtain ⟨x, l, rfl, hx, hl⟩ := List.map_eq_cons_iff.mp h
      obtain ⟨b, rfl, hb⟩ := Option.map_eq_some_iff.mp hx
      obtain ⟨args', rfl, hargs⟩ := ih hl
      exact ⟨b :: args', rfl, by rw [List.map_cons, hb, hargs]⟩

/-- Two objects with the same given arguments are the same after `setup`. -/
theorem setup_congr {ca₁ ca₂ : CallArgs} (h : ca₁.given = ca₂.given) (vh : FlatMem)
    (sp : BitVec 64) {r : CallArgs × BitVec 64} (hok : ca₁.setup vh sp = .ok r) :
    ca₂.setup vh sp = .ok r := by
  obtain ⟨args₁, h₁⟩ := setup_arguments hok
  obtain ⟨args₂, h₂, hargs⟩ := arguments_of_given (h.symm.trans (given_map_some h₁))
  obtain ⟨hsmall, rfl⟩ := (setup_ok_iff h₁ vh sp r).mp hok
  have hsize : Frame.size args₁ = Frame.size args₂ := by
    rw [← Frame.size_map_given, ← hargs, Frame.size_map_given]
  have hbuilt (q : BitVec 64) : built vh q args₁ = built vh q args₂ := by
    rw [← built_given, ← hargs, built_given]
  rw [hsize, hbuilt]
  exact (setup_ok_iff h₂ vh sp _).mpr ⟨hsize ▸ hsmall, rfl⟩

/-- `setup` gives addresses to the arguments and changes nothing else about them. -/
theorem setup_given {ca ca' : CallArgs} {vh : FlatMem} {sp sp' : BitVec 64}
    (h : ca.setup vh sp = .ok (ca', sp')) : ca'.given = ca.given := by
  obtain ⟨args, hset⟩ := setup_arguments h
  obtain ⟨-, hr⟩ := (setup_ok_iff hset vh sp _).mp h
  cases hr
  rw [given_map_some hset, given_map_some rfl, Frame.map_given_place]

/-! ## The other operations -/

/-- The slots with empty ones behind them, so that there are at least `n`. -/
def padded (slots : List (Option Arg)) (n : Nat) : List (Option Arg) :=
  slots ++ List.replicate (n - slots.length) none

theorem extend_eq_ok {slots slots' : List (Option Arg)} {n : Nat}
    (h : extend slots n = .ok slots') : slots' = padded slots n := by
  unfold extend at h
  split at h
  · exact (Except.ite_eq_ok.mp h).2.symm
  · rename_i hlen
    cases h
    simp [padded, Nat.sub_eq_zero_of_le (Nat.le_of_not_lt hlen)]

theorem extend_of_le {slots : List (Option Arg)} {n : Nat} (h : n ≤ vectorMaxSize) :
    extend slots n = .ok (padded slots n) := by
  by_cases hlen : slots.length < n
  · simp [extend, hlen, resize, h, padded]
  · simp [extend, hlen, padded, Nat.sub_eq_zero_of_le (Nat.le_of_not_lt hlen)]

/-- The slots after one of them was set. -/
theorem getElem?_set_padded (slots : List (Option Arg)) (n : Nat) (x : Option Arg) (m : Nat) :
    ((padded slots (n + 1)).set n x)[m]? =
      if m = n then some x
      else if m < slots.length then slots[m]?
      else if m < n then some none
      else none := by
  unfold padded
  grind

theorem length_set_padded (slots : List (Option Arg)) (n : Nat) (x : Option Arg) :
    ((padded slots (n + 1)).set n x).length = max slots.length (n + 1) := by
  simp only [padded, List.length_set, List.length_append, List.length_replicate]
  omega

/-- The object with an argument in the slot `n`, and empty slots before it where there were
    none. -/
def put (ca : CallArgs) (n : Nat) (a : Arg) : CallArgs :=
  { ca with arguments := (padded ca.arguments (n + 1)).set n (some a) }

/-- When `set_` and `setOnStack` return, and what they do. -/
theorem setSlot_eq_ok {ca ca' : CallArgs} {argnum : Int} {a : Arg} :
    ca.setSlot argnum a = .ok ca' ↔
      (0 ≤ argnum ∧ argnum < 2 ^ 31 - 1) ∧ ca' = ca.put argnum.toNat a := by
  constructor
  · intro h
    obtain ⟨n, hn, h₁⟩ := Except.bind_eq_ok.mp h
    obtain ⟨hrange, rfl⟩ := checkInt_eq_ok.mp hn
    obtain ⟨arguments, hextend, h₂⟩ := Except.bind_eq_ok.mp h₁
    obtain ⟨hpos, rfl⟩ := Except.ite_eq_ok.mp h₂
    refine ⟨⟨hpos, by omega⟩, ?_⟩
    rw [extend_eq_ok hextend, toSizeT_succ hpos (by omega), put]
  · rintro ⟨⟨hpos, hlt⟩, rfl⟩
    refine Except.bind_eq_ok.mpr ⟨argnum + 1, checkInt_eq_ok.mpr ⟨by omega, rfl⟩, ?_⟩
    rw [toSizeT_succ hpos (by omega)]
    refine Except.bind_eq_ok.mpr ⟨_, extend_of_le ?_, Except.ite_eq_ok.mpr ⟨hpos, rfl⟩⟩
    unfold vectorMaxSize stringMaxSize
    omega

/-- What `set_` and `setOnStack` do to the given arguments. -/
theorem setSlot_given {ca ca' : CallArgs} {argnum : Int} {a : Arg}
    (h : ca.setSlot argnum a = .ok ca') :
    ca'.given = (padded ca.given (argnum.toNat + 1)).set argnum.toNat (some a.given) := by
  obtain ⟨-, rfl⟩ := setSlot_eq_ok.mp h
  simp [given, put, padded, List.map_set]

theorem copyout_given {σ : Type} {ca ca' : CallArgs} {vh vh' : FlatMem} {s s' : σ}
    {xfer : BitVec 64 → Nat → List Byte → σ → Int × List Byte × σ}
    (h : ca.copyout xfer vh s = .ok (ca', vh', s')) : ca'.given = ca.given := by
  unfold copyout at h
  split at h
  · obtain ⟨args, -, hret⟩ := Except.bind_eq_ok.mp h
    cases hret
    rfl
  · cases h
    rfl

/-! ## Runs -/

section Runs
variable {σ : Type}

/-- What surrounds the object: the memory of the VH and whatever the transfers read and
    write. -/
structure World (σ : Type) where
  args : CallArgs
  vh : FlatMem
  state : σ

/-- An operation on the object, or a change of the VH memory or of the state of the
    transfers between two of them. -/
inductive Use (σ : Type) where
  | set (argnum : Int) (val : Scalar)
  | setOnStack (intent : Intent) (argnum : Int) (buff len : Nat) (lenLt : len < 2 ^ 64)
      (vemva : BitVec 64)
  | clear
  | setup (sp : BitVec 64)
  | getRegVal
  | copyin (xfer : BitVec 64 → List Byte → σ → Int × σ)
  | copyout (xfer : BitVec 64 → Nat → List Byte → σ → Int × List Byte × σ)
  | elsewhere (vh : FlatMem) (state : σ)

/-- Carry out one operation. -/
def Use.exec (w : World σ) : Use σ → Except Fault (World σ)
  | .set argnum val => do return { w with args := ← w.args.set_ argnum val }
  | .setOnStack intent argnum buff len lenLt vemva => do
    return { w with args := ← w.args.setOnStack intent argnum buff len lenLt vemva }
  | .clear => return { w with args := w.args.clear }
  | .setup sp => do
    let (args, _) ← w.args.setup w.vh sp
    return { w with args := args }
  | .getRegVal => do
    let _ ← w.args.getRegVal
    return w
  | .copyin xfer => return { w with state := w.args.copyin xfer w.state }
  | .copyout xfer => do
    let (args, vh, state) ← w.args.copyout xfer w.vh w.state
    return { args := args, vh := vh, state := state }
  | .elsewhere vh state => return { w with vh := vh, state := state }

def runUses : List (Use σ) → World σ → Except Fault (World σ)
  | [], w => return w
  | u :: us, w => do runUses us (← u.exec w)

/-- What an operation does to the given arguments: only the setters count. -/
def Use.update (given : List (Option Arg)) : Use σ → List (Option Arg)
  | .set argnum val =>
    (padded given (argnum.toNat + 1)).set argnum.toNat (some val.toArg)
  | .setOnStack intent argnum buff len lenLt _ =>
    (padded given (argnum.toNat + 1)).set argnum.toNat
      (some (.onStack ⟨buff, len, lenLt, intent.copiedIn, intent.copiedOut, 0⟩))
  | .clear => []
  | .setup _ | .getRegVal | .copyin _ | .copyout _ | .elsewhere _ _ => given

/-- One step: the arguments of the object, addresses apart, change as `update` says. -/
theorem Use.exec_given {u : Use σ} {w w' : World σ} (h : u.exec w = .ok w') :
    w'.args.given = u.update w.args.given := by
  cases u with
  | set argnum val =>
      obtain ⟨ca, hset, hret⟩ := Except.bind_eq_ok.mp h
      cases hret
      have hgiven : val.toArg.given = val.toArg := by cases val <;> rfl
      rw [setSlot_given hset, hgiven]
      rfl
  | setOnStack intent argnum buff len lenLt vemva =>
      obtain ⟨ca, hset, hret⟩ := Except.bind_eq_ok.mp h
      cases hret
      exact setSlot_given hset
  | clear =>
      cases h
      rfl
  | setup sp =>
      obtain ⟨⟨ca, sp'⟩, hset, hret⟩ := Except.bind_eq_ok.mp h
      cases hret
      exact setup_given hset
  | getRegVal =>
      obtain ⟨_, -, hret⟩ := Except.bind_eq_ok.mp h
      cases hret
      rfl
  | copyin xfer =>
      cases h
      rfl
  | copyout xfer =>
      obtain ⟨⟨ca, vh, s⟩, hout, hret⟩ := Except.bind_eq_ok.mp h
      cases hret
      exact copyout_given hout
  | elsewhere vh state =>
      cases h
      rfl

/-- A whole run: the given arguments are what the setters made of them. -/
theorem runUses_given {us : List (Use σ)} {w w' : World σ} (h : runUses us w = .ok w') :
    w'.args.given = us.foldl Use.update w.args.given := by
  induction us generalizing w with
  | nil =>
      cases h
      rfl
  | cons u us ih =>
      obtain ⟨w₁, hstep, hrest⟩ := Except.bind_eq_ok.mp h
      rw [ih hrest, Use.exec_given hstep, List.foldl_cons]

/-- What a call makes of the object: the stack pointer, the register values and the
    image, and the memory of the VH and the state of the transfers after `copyin`, the
    VE function, and `copyout`. -/
def call (ca : CallArgs) (sp : BitVec 64) (vh : FlatMem) (s : σ)
    (send : BitVec 64 → List Byte → σ → Int × σ) (body : FlatMem → σ → FlatMem × σ)
    (recv : BitVec 64 → Nat → List Byte → σ → Int × List Byte × σ) :
    Except Fault (BitVec 64 × List (BitVec 64) × List Byte × FlatMem × σ) := do
  let (ca, sp) ← ca.setup vh sp
  let regs ← ca.getRegVal
  let (vh, s) := body vh (ca.copyin send s)
  let (_, vh, s) ← ca.copyout recv vh s
  return (sp, regs, ca.stackBuf, vh, s)

/-- Reusing an object is independent of its history: after any operations on it, `setup`
    makes the same object of it as of any other object with the arguments that were set
    last, and a call transfers the same bytes to and from the same places. -/
theorem setup_history_independent {us : List (Use σ)} {w w' : World σ}
    (hrun : runUses us w = .ok w') (fresh : CallArgs)
    (hfresh : fresh.given = us.foldl Use.update w.args.given) (sp : BitVec 64) :
    (∀ r, w'.args.setup w'.vh sp = .ok r ↔ fresh.setup w'.vh sp = .ok r) ∧
    ∀ (s : σ) send body recv r, w'.args.call sp w'.vh s send body recv = .ok r ↔
      fresh.call sp w'.vh s send body recv = .ok r := by
  have hsame : w'.args.given = fresh.given := (runUses_given hrun).trans hfresh.symm
  have hsetup (r : CallArgs × BitVec 64) :
      w'.args.setup w'.vh sp = .ok r ↔ fresh.setup w'.vh sp = .ok r :=
    ⟨setup_congr hsame w'.vh sp, setup_congr hsame.symm w'.vh sp⟩
  refine ⟨hsetup, fun s send body recv r => ?_⟩
  unfold call
  simp only [Except.bind_eq_ok, hsetup]

/-- An object that was used for a call with a buffer, then cleared and refilled. -/
theorem setup_history_independent_refilled :
    let us : List (Use Unit) :=
      [.setOnStack .inout 0 0x100 5 (by decide) 0xdead, .setup 0x10000, .getRegVal,
       .copyin (fun _ _ s => (-1, s)), .copyout (fun _ _ buf s => (0, buf, s)), .clear,
       .set 1 (.double 7), .setOnStack .out 0 0x200 4 (by decide) 0xbeef,
       .elsewhere (fun _ => 1) ()]
    let fresh : CallArgs :=
      ⟨[some (.onStack ⟨0x200, 4, by decide, false, true, 0⟩), some (.double 7)], 0, 0, [], false,
       false⟩
    ∃ w', runUses us ⟨⟨[], 3, 4, [5], true, true⟩, fun _ => 0, ()⟩ = .ok w' ∧
      (∀ r, w'.args.setup w'.vh 0x8000 = .ok r ↔ fresh.setup w'.vh 0x8000 = .ok r) := by
  intro us fresh
  have hrun : (runUses us ⟨⟨[], 3, 4, [5], true, true⟩, fun _ => 0, ()⟩).isOk = true := by
    decide +kernel
  cases h : runUses us ⟨⟨[], 3, 4, [5], true, true⟩, fun _ => 0, ()⟩ with
  | error e =>
      rw [h] at hrun
      cases hrun
  | ok w' => exact ⟨w', rfl, (setup_history_independent h fresh rfl 0x8000).1⟩

end Runs

end CallArgs

end Veo
