-- SUMMARY: Byte strings: little-endian words, slices, and in-place overwriting of a slice.
import Mathlib.Data.List.Basic
import Mathlib.Tactic.Ring

/-!
# Byte strings

Byte strings are lists of bytes. `slice` reads a stretch of a string and `splice`
overwrites one. Little-endian words are the bytes of a natural number, least
significant first.
-/

abbrev Byte := BitVec 8

namespace Bytes

/-! ## Little-endian words -/

/-- The `n` little-endian bytes of `v`. Bits above `8 * n` are dropped. -/
def ofNatLE : Nat → Nat → List Byte
  | 0, _ => []
  | n + 1, v => BitVec.ofNat 8 v :: ofNatLE n (v / 256)

/-- The number with the given little-endian bytes. -/
def toNatLE : List Byte → Nat
  | [] => 0
  | b :: bs => b.toNat + 256 * toNatLE bs

/-- A run of zero bytes. -/
def zeros (n : Nat) : List Byte := List.replicate n 0#8

@[simp] theorem length_ofNatLE (n v : Nat) : (ofNatLE n v).length = n := by
  induction n generalizing v with
  | zero => rfl
  | succ n ih => simp [ofNatLE, ih]

@[simp] theorem length_zeros (n : Nat) : (zeros n).length = n := by simp [zeros]

theorem zeros_append (m n : Nat) : zeros m ++ zeros n = zeros (m + n) := by
  simp [zeros]

theorem toNatLE_append_zeros (s : List Byte) (n : Nat) : toNatLE (s ++ zeros n) = toNatLE s := by
  induction s with
  | nil =>
      induction n with
      | zero => rfl
      | succ n ih => simpa [zeros, List.replicate_succ, toNatLE] using ih
  | cons b s ih => simp [toNatLE, ih]

theorem toNatLE_ofNatLE (n v : Nat) : toNatLE (ofNatLE n v) = v % 256 ^ n := by
  induction n generalizing v with
  | zero => simp [ofNatLE, toNatLE, Nat.mod_one]
  | succ n ih =>
      simp only [ofNatLE, toNatLE, ih, BitVec.toNat_ofNat]
      rw [show (2 : Nat) ^ 8 = 256 from rfl, pow_succ' 256 n, Nat.mod_mul]

/-- Shifting a word up by whole bytes puts zeros below it. -/
theorem ofNatLE_mul_pow (k n v : Nat) : ofNatLE (k + n) (v * 256 ^ k) = zeros k ++ ofNatLE n v := by
  induction k with
  | zero => simp [zeros]
  | succ k ih =>
      have hlow : BitVec.ofNat 8 (v * 256 ^ (k + 1)) = 0#8 := by
        apply BitVec.eq_of_toNat_eq
        rw [BitVec.toNat_ofNat, pow_succ, ← Nat.mul_assoc]
        exact Nat.mul_mod_left _ _
      have hrest : v * 256 ^ (k + 1) / 256 = v * 256 ^ k := by
        rw [pow_succ, ← Nat.mul_assoc, Nat.mul_div_cancel _ (by decide)]
      rw [Nat.succ_add, ofNatLE, hlow, hrest, ih]
      rfl

/-! ## Slices -/

variable {α : Type}

/-- The `n` elements of `s` from position `pos` on. -/
def slice (s : List α) (pos n : Nat) : List α := (s.drop pos).take n

/-- `s` with the `n` elements from position `pos` on replaced by `t`. -/
def splice (s : List α) (pos n : Nat) (t : List α) : List α :=
  s.take pos ++ t ++ s.drop (pos + n)

/-- Overwriting the middle part of a string that is given in three parts. -/
theorem splice_middle {a z b t : List α} {pos n : Nat} (hpos : pos = a.length)
    (hn : n = z.length) : splice (a ++ z ++ b) pos n t = a ++ t ++ b := by
  subst hpos hn
  have hdrop : (a ++ z ++ b).drop (a.length + z.length) = b := by
    rw [← List.length_append, List.drop_left]
  unfold splice
  rw [hdrop, List.append_assoc a z b, List.take_left]

/-- Reading the middle part of a string that is given in three parts. -/
theorem slice_middle {a z b : List α} {pos n : Nat} (hpos : pos = a.length)
    (hn : n = z.length) : slice (a ++ z ++ b) pos n = z := by
  subst hpos hn
  unfold slice
  rw [List.append_assoc, List.drop_left, List.take_left]

theorem length_slice {s : List α} {pos n : Nat} (h : pos + n ≤ s.length) :
    (slice s pos n).length = n := by
  simp only [slice, List.length_take, List.length_drop]
  omega

theorem take_slice (s : List α) {pos m n : Nat} (h : n ≤ m) :
    (slice s pos m).take n = slice s pos n := by
  simp only [slice, List.take_take, Nat.min_eq_left h]

/-- Reading one of the parts of a concatenation. -/
theorem slice_flatten {parts : List (List α)} {k : Nat} {x : List α} (h : parts[k]? = some x) :
    slice parts.flatten (parts.take k).flatten.length x.length = x := by
  obtain ⟨hk, rfl⟩ := List.getElem?_eq_some_iff.mp h
  have hsplit : parts = parts.take k ++ parts[k] :: parts.drop (k + 1) := by
    rw [← List.drop_eq_getElem_cons hk, List.take_append_drop]
  have hflat : parts.flatten =
      (parts.take k).flatten ++ parts[k] ++ (parts.drop (k + 1)).flatten := by
    conv_lhs => rw [hsplit]
    simp only [List.flatten_append, List.flatten_cons, List.append_assoc]
  rw [hflat]
  exact slice_middle rfl rfl

theorem slice_append_right (s t : List α) (pos n : Nat) :
    slice (s ++ t) (s.length + pos) n = slice t pos n := by
  simp only [slice, List.drop_append, List.drop_eq_nil_of_le (Nat.le_add_right _ pos),
    Nat.add_sub_cancel_left, List.nil_append]

theorem slice_append_left {s t : List α} {pos n : Nat} (h : pos + n ≤ s.length) :
    slice (s ++ t) pos n = slice s pos n := by
  unfold slice
  rw [List.drop_append_of_le_length (by omega),
    List.take_append_of_le_length (by rw [List.length_drop]; omega)]

theorem getElem?_slice (s : List α) {pos n i : Nat} (hi : i < n) :
    (slice s pos n)[i]? = s[pos + i]? := by
  rw [slice, List.getElem?_take_of_lt hi, List.getElem?_drop]

end Bytes
