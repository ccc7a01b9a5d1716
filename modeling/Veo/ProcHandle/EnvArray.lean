-- SUMMARY: The array that spawn_helper builds for the stack of the VE process: the environment and the auxiliary vector.
import Veo.CallArgs.Basic
import Veo.Lib.Buffer

/-!
# The environment of the VE process

`spawn_helper` builds one array of pointers for `init_stack`: the environment of the program with
its NULL, and then the entries of the auxiliary vector that are placed on the stack of the VE
process, each with its type and its value, and NULL. The size is computed before, with room for
every type.
-/

namespace Veo

/-- `environ` up to its NULL. -/
structure Environ where
  ptrs : List (BitVec 64)
  nonnull : ∀ p ∈ ptrs, p ≠ 0

/-- The types of the auxiliary vector that are placed on the stack of the VE process. -/
inductive AuxvType where
  | execfd | phdr | phent | phnum | pagesz | base | flags | entry | uid | euid | gid | egid
  | platform | clktck | secure | random | execfn | quickcallVaddr
deriving DecidableEq, Repr

def AuxvType.all : List AuxvType :=
  [.execfd, .phdr, .phent, .phnum, .pagesz, .base, .flags, .entry, .uid, .euid, .gid, .egid,
    .platform, .clktck, .secure, .random, .execfn, .quickcallVaddr]

/-- The auxiliary vector of the program. -/
structure Auxv where
  /-- `getauxval`, which returns zero for a type that is not there. -/
  getauxval : BitVec 64 → BitVec 64
  /-- `AT_QUICKCALL_VADDR`. -/
  quickcall : BitVec 64

namespace Auxv

/-- The numbers of the types in `elf.h`. -/
def number (A : Auxv) : AuxvType → BitVec 64
  | .execfd => 2 | .phdr => 3 | .phent => 4 | .phnum => 5 | .pagesz => 6 | .base => 7
  | .flags => 8 | .entry => 9 | .uid => 11 | .euid => 12 | .gid => 13 | .egid => 14
  | .platform => 15 | .clktck => 17 | .secure => 23 | .random => 25 | .execfn => 31
  | .quickcallVaddr => A.quickcall

/-- The labels of the `switch`. -/
def labels (A : Auxv) : List (BitVec 64) := AuxvType.all.map A.number

end Auxv

/-- The values of `auxv_type` in the loop. -/
def auxvTypes : List (BitVec 64) := (List.range' 1 31).map (BitVec.ofNat 64)

/-- What one round of the loop stores. -/
def auxvEntry (A : Auxv) (auxvType : BitVec 64) : List (BitVec 64) :=
  if auxvType ∈ A.labels then
    let auxvVal := A.getauxval auxvType
    if auxvVal ≠ 0 then [auxvType, auxvVal] else []
  else
    []

/-- `env_num`. -/
def envNum (E : Environ) : Except Fault Int := do
  let envNum ← checkInt E.ptrs.length
  checkInt (envNum + (1 + 2 * (32 - 1) + 1))

/-- The array that `spawn_helper` passes to `init_stack`. There is none if `env_num` is not an
    `int`, or if an element past the end would be stored. The index is the number of elements
    stored. -/
def envArray (E : Environ) (A : Auxv) : Option (Buffer (BitVec 64)) := do
  let size ← (envNum E).toOption
  let b ← (Buffer.empty size.toNat).pushAll E.ptrs
  let b ← b.push 0
  let b ← auxvTypes.foldlM (fun b auxvType => b.pushAll (auxvEntry A auxvType)) b
  b.push 0

/-! ## What the array holds -/

/-- The types whose entries are placed. -/
def Auxv.placed (A : Auxv) : List (BitVec 64) :=
  auxvTypes.filter fun auxvType => auxvType ∈ A.labels ∧ A.getauxval auxvType ≠ 0

theorem Auxv.placed_ne_zero (A : Auxv) : ∀ auxvType ∈ A.placed, auxvType ≠ 0 := by
  intro auxvType hmem hzero
  have hmem' := (List.mem_filter.mp hmem).1
  rw [hzero] at hmem'
  exact absurd hmem' (by decide)

theorem Auxv.placed_length_le (A : Auxv) : A.placed.length ≤ 31 :=
  List.length_filter_le _ _

/-- The entries of the loop are the ones of the types placed. -/
theorem flatMap_auxvEntry (A : Auxv) :
    auxvTypes.flatMap (auxvEntry A) =
      (A.placed.map fun x => (x, A.getauxval x)).flatMap fun p => [p.1, p.2] := by
  rw [Auxv.placed, List.flatMap_map]
  induction auxvTypes with
  | nil => rfl
  | cons x xs ih =>
      rw [List.flatMap_cons, ih, List.filter_cons]
      by_cases hlabel : x ∈ A.labels
      · by_cases hval : A.getauxval x = 0#64 <;> simp [auxvEntry, hlabel, hval]
      · simp [auxvEntry, hlabel]

theorem envNum_eq_ok {E : Environ} {n : Int} :
    envNum E = .ok n ↔ E.ptrs.length + 64 < 2 ^ 31 ∧ n = E.ptrs.length + 64 := by
  constructor
  · intro h
    obtain ⟨n', hlength, hsize⟩ := Except.bind_eq_ok.mp h
    obtain ⟨-, rfl⟩ := checkInt_eq_ok.mp hlength
    obtain ⟨hrange, rfl⟩ := checkInt_eq_ok.mp hsize
    omega
  · rintro ⟨hsmall, rfl⟩
    have hlength : checkInt E.ptrs.length = .ok ↑E.ptrs.length :=
      checkInt_eq_ok.mpr ⟨by omega, rfl⟩
    exact Except.bind_eq_ok.mpr ⟨_, hlength, checkInt_eq_ok.mpr ⟨by omega, by omega⟩⟩

/-- The size is enough for every entry. -/
theorem envArray_eq_some (E : Environ) (A : Auxv) (h : E.ptrs.length + 64 < 2 ^ 31) :
    ∃ b, envArray E A = some b ∧ b.size = E.ptrs.length + 64 ∧
      b.cells = E.ptrs ++ 0 :: (auxvTypes.flatMap (auxvEntry A) ++ [0]) := by
  have hentries : (auxvTypes.flatMap (auxvEntry A)).length ≤ 62 := by
    have hplaced := A.placed_length_le
    rw [flatMap_auxvEntry, length_flatMap_pair, List.length_map]
    omega
  let b₀ : Buffer (BitVec 64) := .empty (E.ptrs.length + 64)
  have hfit₀ : b₀.cells.length + E.ptrs.length ≤ b₀.size := by simp [b₀, Buffer.empty]
  obtain ⟨b₁, hcopy, hsize₁, hcells₁⟩ := Buffer.pushAll_of_le hfit₀
  rw [show b₀.cells = [] from rfl, List.nil_append] at hcells₁
  have hsize₁' : b₁.size = E.ptrs.length + 64 := hsize₁
  obtain ⟨b₂, hnull, hsize₂, hcells₂⟩ := Buffer.push_of_lt (b := b₁)
    (by rw [hcells₁, hsize₁']; omega) 0
  have hlen₂ : b₂.cells.length = E.ptrs.length + 1 := by
    rw [hcells₂, hcells₁, List.length_append, List.length_singleton]
  have hfit₂ : b₂.cells.length + (auxvTypes.flatMap (auxvEntry A)).length ≤ b₂.size := by
    rw [hlen₂, hsize₂, hsize₁']
    omega
  obtain ⟨b₃, hauxv, hsize₃, hcells₃⟩ := Buffer.pushAll_of_le hfit₂
  obtain ⟨b, hend, hsize, hcells⟩ := Buffer.push_of_lt (b := b₃)
    (by rw [hcells₃, List.length_append, hlen₂, hsize₃, hsize₂, hsize₁']; omega) 0
  refine ⟨b, ?_, hsize.trans (hsize₃.trans (hsize₂.trans hsize₁')), ?_⟩
  · have hnum : (envNum E).toOption = some ↑(E.ptrs.length + 64) := by
      rw [envNum_eq_ok.mpr ⟨h, rfl⟩]
      rfl
    rw [envArray, hnum, Option.bind_eq_bind, Option.bind_some, Int.toNat_natCast, hcopy]
    simp only [Option.bind_eq_bind, Option.bind_some, hnull, Buffer.pushAll_flatMap, hauxv, hend]
  · rw [hcells, hcells₃, hcells₂, hcells₁]
    simp

/-- The array is built without going past its end as long as its size is an `int`, and the VE
    process reads back from it the environment and, for each type, the value of the auxiliary
    vector of the program. -/
theorem envArray_read_back (E : Environ) (A : Auxv) :
    (envArray E A = none ↔ 2 ^ 31 ≤ E.ptrs.length + 64) ∧
    ∀ b, envArray E A = some b →
      ∃ rest pairs, readTerminated 0 b.cells = some (E.ptrs, rest) ∧
        readPairs 0 rest = some pairs ∧
        ∀ auxvType, pairs.lookup auxvType =
          if auxvType ∈ auxvTypes ∧ auxvType ∈ A.labels ∧ A.getauxval auxvType ≠ 0 then
            some (A.getauxval auxvType)
          else
            none := by
  by_cases hsmall : E.ptrs.length + 64 < 2 ^ 31
  case pos =>
    obtain ⟨b, hb, -, hcells⟩ := envArray_eq_some E A hsmall
    refine ⟨⟨(fun h => nomatch hb.symm.trans h), fun h => by omega⟩, fun b' hb' => ?_⟩
    rw [hb] at hb'
    cases hb'
    rw [hcells]
    refine ⟨_, A.placed.map fun x => (x, A.getauxval x), readTerminated_append _ E.nonnull, ?_, ?_⟩
    · rw [flatMap_auxvEntry]
      refine readPairs_append fun p hp => ?_
      obtain ⟨x, hx, rfl⟩ := List.mem_map.mp hp
      exact A.placed_ne_zero x hx
    · intro auxvType
      rw [lookup_map_pair]
      simp [Auxv.placed, List.mem_filter]
  case neg =>
    have hnone : envArray E A = none := by
      cases hnum : envNum E with
      | ok n => exact absurd (envNum_eq_ok.mp hnum).1 hsmall
      | error e => simp only [envArray, hnum]; rfl
    refine ⟨⟨fun _ => by omega, fun _ => hnone⟩, fun b hb => ?_⟩
    rw [hnone] at hb
    cases hb

end Veo
