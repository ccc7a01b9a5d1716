-- SUMMARY: Byte-addressed memories, one with unbounded addresses and one whose addresses wrap at a power of two.
import Veo.Lib.Bytes

/-!
# Memories

A `FlatMem` is addressed by natural numbers: it stands for the objects of one
address space, where pointer arithmetic stays inside an object. A `WordMem w` is
addressed by `w`-bit words and a transfer that runs past the last address goes on
at address zero.
-/

abbrev FlatMem := Nat → Byte
abbrev WordMem (w : Nat) := BitVec w → Byte

namespace FlatMem

/-- The `n` bytes from address `a` on. -/
def read (m : FlatMem) (a n : Nat) : List Byte := (List.range n).map fun i => m (a + i)

/-- `m` with the bytes `bs` stored from address `a` on. -/
def write (m : FlatMem) (a : Nat) (bs : List Byte) : FlatMem :=
  fun x => if a ≤ x then (bs[x - a]?).getD (m x) else m x

@[simp] theorem length_read (m : FlatMem) (a n : Nat) : (m.read a n).length = n := by
  simp [read]

theorem getElem?_read (m : FlatMem) {a n i : Nat} (hi : i < n) :
    (m.read a n)[i]? = some (m (a + i)) := by
  simp [read, hi]

/-- A store changes no byte outside the stored range. -/
theorem write_of_outside (m : FlatMem) {a x : Nat} {bs : List Byte}
    (h : x < a ∨ a + bs.length ≤ x) : m.write a bs x = m x := by
  unfold write
  split
  · rename_i hax
    rw [List.getElem?_eq_none (by omega)]
    rfl
  · rfl

theorem read_write_same (m : FlatMem) (a : Nat) (bs : List Byte) :
    (m.write a bs).read a bs.length = bs := by
  apply List.ext_getElem?
  intro i
  by_cases hi : i < bs.length
  · rw [getElem?_read _ hi]
    simp [write, hi]
  · rw [List.getElem?_eq_none (by simp; omega), List.getElem?_eq_none (by omega)]

/-- Reading a range depends only on the bytes of the range. -/
theorem read_congr {m m' : FlatMem} {a n : Nat} (h : ∀ i, i < n → m (a + i) = m' (a + i)) :
    m.read a n = m'.read a n := by
  unfold read
  apply List.map_congr_left
  intro i hi
  exact h i (List.mem_range.mp hi)

/-- A store leaves a range that it does not meet. -/
theorem read_write_of_disjoint (m : FlatMem) {a b n : Nat} {bs : List Byte}
    (h : a + n ≤ b ∨ b + bs.length ≤ a) : (m.write b bs).read a n = m.read a n :=
  read_congr fun i hi => write_of_outside m (by omega)

/-- Reading a part of a range. -/
theorem slice_read (m : FlatMem) (a : Nat) {pos n size : Nat} (h : pos + n ≤ size) :
    Bytes.slice (m.read a size) pos n = m.read (a + pos) n := by
  apply List.ext_getElem?
  intro i
  by_cases hi : i < n
  · rw [Bytes.getElem?_slice _ hi, getElem?_read _ (by omega), getElem?_read _ hi, Nat.add_assoc]
  · rw [List.getElem?_eq_none (by rw [Bytes.length_slice (by simpa using h)]; omega),
      List.getElem?_eq_none (by simp; omega)]

end FlatMem

namespace WordMem

variable {w : Nat}

/-- The `n` bytes from address `a` on, wrapping at the top. -/
def read (m : WordMem w) (a : BitVec w) (n : Nat) : List Byte :=
  (List.range n).map fun i => m (a + BitVec.ofNat w i)

/-- `m` with the bytes `bs` stored from address `a` on, wrapping at the top. -/
def write (m : WordMem w) (a : BitVec w) (bs : List Byte) : WordMem w :=
  fun x => (bs[(x - a).toNat]?).getD (m x)

@[simp] theorem length_read (m : WordMem w) (a : BitVec w) (n : Nat) :
    (m.read a n).length = n := by
  simp [read]

theorem getElem?_read (m : WordMem w) {a : BitVec w} {n i : Nat} (hi : i < n) :
    (m.read a n)[i]? = some (m (a + BitVec.ofNat w i)) := by
  simp [read, hi]

/-- Reading back a slice of a stored string, as long as the string does not wrap
    around onto itself. -/
theorem read_write_slice (m : WordMem w) (a : BitVec w) {bs : List Byte} {pos n : Nat}
    (hn : pos + n ≤ bs.length) (hw : bs.length ≤ 2 ^ w) :
    (m.write a bs).read (a + BitVec.ofNat w pos) n = Bytes.slice bs pos n := by
  apply List.ext_getElem?
  intro i
  by_cases hi : i < n
  · rw [getElem?_read _ hi, Bytes.getElem?_slice _ hi]
    have haddr : (a + BitVec.ofNat w pos + BitVec.ofNat w i - a).toNat = pos + i := by
      have hsum : a + BitVec.ofNat w pos + BitVec.ofNat w i - a = BitVec.ofNat w (pos + i) := by
        rw [BitVec.add_assoc, ← BitVec.ofNat_add, BitVec.add_comm, BitVec.add_sub_cancel]
      rw [hsum, BitVec.toNat_ofNat, Nat.mod_eq_of_lt (by omega)]
    have hlt : pos + i < bs.length := by omega
    simp [write, haddr, hlt]
  · rw [List.getElem?_eq_none (by simp; omega),
      List.getElem?_eq_none (by rw [Bytes.length_slice hn]; omega)]

theorem read_write_same (m : WordMem w) (a : BitVec w) {bs : List Byte} (hw : bs.length ≤ 2 ^ w) :
    (m.write a bs).read a bs.length = bs := by
  have hslice := read_write_slice m a (show 0 + bs.length ≤ bs.length by omega) hw
  simpa [Bytes.slice] using hslice

/-- A store leaves a range that it does not meet. -/
theorem read_write_of_disjoint (m : WordMem w) {a b : BitVec w} {n : Nat} {bs : List Byte}
    (h : ∀ i < n, ∀ j < bs.length, a + BitVec.ofNat w i ≠ b + BitVec.ofNat w j) :
    (m.write b bs).read a n = m.read a n := by
  unfold read
  apply List.map_congr_left
  intro i hi
  have hout : bs.length ≤ (a + BitVec.ofNat w i - b).toNat := by
    by_contra hlt
    refine h i (List.mem_range.mp hi) _ (Nat.lt_of_not_le hlt) ?_
    rw [BitVec.ofNat_toNat, BitVec.setWidth_eq, BitVec.add_comm b, BitVec.sub_add_cancel]
  rw [write, List.getElem?_eq_none hout]
  rfl

/-- Slices of a range that was read are reads themselves. -/
theorem slice_read (m : WordMem w) (a : BitVec w) {len pos n : Nat} (hn : pos + n ≤ len) :
    Bytes.slice (m.read a len) pos n = m.read (a + BitVec.ofNat w pos) n := by
  apply List.ext_getElem?
  intro i
  by_cases hi : i < n
  · rw [getElem?_read _ hi, Bytes.getElem?_slice _ hi, getElem?_read _ (by omega),
      BitVec.ofNat_add, BitVec.add_assoc]
  · rw [List.getElem?_eq_none (by rw [Bytes.length_slice (by simpa using hn)]; omega),
      List.getElem?_eq_none (by simp; omega)]

end WordMem
