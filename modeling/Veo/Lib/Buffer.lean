-- SUMMARY: Buffers of a fixed size that are filled from the start, and lists that end at a terminator.
import Mathlib.Data.List.Basic

/-!
# Buffers and terminated lists

A buffer is filled element by element; what would go past its end is not defined. A list that
ends at a terminator is read back up to the first one.
-/

/-- A buffer with room for `size` elements. -/
structure Buffer (α : Type) where
  size : Nat
  cells : List α
  fits : cells.length ≤ size

namespace Buffer

variable {α β : Type}

def empty (size : Nat) : Buffer α := ⟨size, [], Nat.zero_le _⟩

/-- The next element, if there is room for it. -/
def push (b : Buffer α) (x : α) : Option (Buffer α) :=
  if h : b.cells.length < b.size then
    some ⟨b.size, b.cells ++ [x], by rw [List.length_append]; exact h⟩
  else
    none

theorem push_of_lt {b : Buffer α} (h : b.cells.length < b.size) (x : α) :
    ∃ b', b.push x = some b' ∧ b'.size = b.size ∧ b'.cells = b.cells ++ [x] :=
  ⟨_, dif_pos h, rfl, rfl⟩

/-- A loop that pushes elements. -/
def pushAll (b : Buffer α) (xs : List α) : Option (Buffer α) := xs.foldlM push b

/-- Elements that fit are stored one after the other. -/
theorem pushAll_of_le {b : Buffer α} {xs : List α} (h : b.cells.length + xs.length ≤ b.size) :
    ∃ b', b.pushAll xs = some b' ∧ b'.size = b.size ∧ b'.cells = b.cells ++ xs := by
  induction xs generalizing b with
  | nil => exact ⟨b, rfl, rfl, (List.append_nil _).symm⟩
  | cons x xs ih =>
      rw [List.length_cons] at h
      obtain ⟨b₁, hpush, hsize₁, hcells₁⟩ := push_of_lt (b := b) (by omega) x
      have hfits : b₁.cells.length + xs.length ≤ b₁.size := by
        rw [hcells₁, hsize₁, List.length_append, List.length_singleton]
        omega
      obtain ⟨b₂, hall, hsize₂, hcells₂⟩ := ih hfits
      refine ⟨b₂, ?_, hsize₂.trans hsize₁, ?_⟩
      · rw [pushAll, List.foldlM_cons, hpush]
        exact hall
      · rw [hcells₂, hcells₁, List.append_assoc]
        rfl

/-- A loop whose rounds push several elements each. -/
theorem pushAll_flatMap (f : β → List α) (ys : List β) (b : Buffer α) :
    ys.foldlM (fun b y => b.pushAll (f y)) b = b.pushAll (ys.flatMap f) := by
  induction ys generalizing b with
  | nil => rfl
  | cons y ys ih =>
      rw [List.foldlM_cons, List.flatMap_cons]
      simp only [ih]
      exact (List.foldlM_append (f := push) (b := b)).symm

end Buffer

/-- The elements up to the first terminator, and what comes after it. -/
def readTerminated {α : Type} [DecidableEq α] (z : α) : List α → Option (List α × List α)
  | [] => none
  | x :: xs => if x = z then some ([], xs) else (readTerminated z xs).map fun r => (x :: r.1, r.2)

theorem readTerminated_append {α : Type} [DecidableEq α] {z : α} {xs : List α} (rest : List α)
    (h : ∀ x ∈ xs, x ≠ z) : readTerminated z (xs ++ z :: rest) = some (xs, rest) := by
  induction xs with
  | nil => exact if_pos rfl
  | cons x xs ih =>
      have hrest := ih fun y hy => h y (List.mem_cons_of_mem _ hy)
      rw [List.cons_append, readTerminated, if_neg (h x List.mem_cons_self), hrest]
      rfl

/-- The pairs up to the first one whose first element is the terminator. The terminator has no
    second element. -/
def readPairs {α : Type} [DecidableEq α] (z : α) : List α → Option (List (α × α))
  | [] => none
  | [x] => if x = z then some [] else none
  | x :: y :: xs => if x = z then some [] else (readPairs z xs).map ((x, y) :: ·)

theorem length_flatMap_pair {α : Type} (ps : List (α × α)) :
    (ps.flatMap fun p => [p.1, p.2]).length = 2 * ps.length := by
  induction ps with
  | nil => rfl
  | cons p ps ih =>
      rw [List.flatMap_cons, List.length_append, ih, List.length_cons]
      simp only [List.length_cons, List.length_nil]
      omega

theorem readPairs_append {α : Type} [DecidableEq α] {z : α} {ps : List (α × α)}
    (h : ∀ p ∈ ps, p.1 ≠ z) : readPairs z (ps.flatMap (fun p => [p.1, p.2]) ++ [z]) = some ps := by
  induction ps with
  | nil => exact if_pos rfl
  | cons p ps ih =>
      have hrest := ih fun q hq => h q (List.mem_cons_of_mem _ hq)
      rw [List.flatMap_cons, List.append_assoc, List.cons_append, List.cons_append,
        List.nil_append, readPairs, if_neg (h p List.mem_cons_self), hrest]
      rfl

/-- A table made of keys and a function on them. -/
theorem lookup_map_pair {α β : Type} [DecidableEq α] (keys : List α) (f : α → β) (k : α) :
    (keys.map fun x => (x, f x)).lookup k = if k ∈ keys then some (f k) else none := by
  induction keys with
  | nil => rfl
  | cons x keys ih =>
      by_cases hk : k = x
      · subst hk
        simp
      · rw [List.map_cons, List.lookup_cons, beq_eq_false_iff_ne.mpr hk, ih]
        simp [hk]
