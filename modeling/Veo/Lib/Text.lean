-- SUMMARY: Texts with decimal numbers: printing and reading them, and splitting a text at a separator.
import Mathlib.Data.List.TakeWhile
import Mathlib.Algebra.Group.Nat.Defs

/-!
# Texts

A text is a list of characters. `ofInt` prints a number in decimal. `readInt` reads the number at
the front of a text as C does: it skips white space, takes a sign and digits, and stops at the
first other character. `getlines` splits a text at a separator.
-/

namespace Text

/-! ## Decimal numbers -/

/-- White space in the C locale. -/
def isSpace (c : Char) : Bool := c == ' ' || (9 ≤ c.toNat && c.toNat ≤ 13)

/-- The decimal number without leading zeros. -/
def ofInt (i : Int) : List Char :=
  if i < 0 then '-' :: Nat.toDigits 10 i.natAbs else Nat.toDigits 10 i.natAbs

/-- The number of the digits at the front of a text, if there are any. -/
def readNat (s : List Char) : Option Nat :=
  if s.takeWhile Char.isDigit = [] then none
  else some (Nat.ofDigitChars 10 (s.takeWhile Char.isDigit) 0)

/-- The number at the front of a text. -/
def readInt (s : List Char) : Option Int :=
  match s.dropWhile isSpace with
  | '-' :: s => (readNat s).map fun n => -n
  | '+' :: s => (readNat s).map fun n => n
  | s => (readNat s).map fun n => n

/-- The text consists of digits. -/
def Digits (s : List Char) : Prop := ∀ c ∈ s, c.isDigit = true

theorem digits_toDigits (n : Nat) : Digits (Nat.toDigits 10 n) :=
  fun _ hc => Nat.isDigit_of_mem_toDigits (by decide) (by decide) hc

theorem digits_take {s : List Char} (h : Digits s) (k : Nat) : Digits (s.take k) :=
  fun c hc => h c (List.mem_of_mem_take hc)

theorem isSpace_of_isDigit {c : Char} (h : c.isDigit = true) : isSpace c = false := by
  simp only [Char.isDigit, Bool.and_eq_true, decide_eq_true_eq] at h
  have hlo : 48 ≤ c.toNat := h.1
  have hne : c ≠ ' ' := by
    rintro rfl
    revert hlo
    decide
  simp [isSpace, hne]
  omega

theorem readNat_digits {s : List Char} (h : Digits s) (hne : s ≠ []) :
    readNat s = some (Nat.ofDigitChars 10 s 0) := by
  have htake : s.takeWhile Char.isDigit = s := List.takeWhile_eq_self_iff.mpr h
  simp only [readNat, htake, if_neg hne]

theorem readInt_digits {s : List Char} (h : Digits s) (hne : s ≠ []) :
    readInt s = some (Nat.ofDigitChars 10 s 0 : Int) := by
  obtain ⟨c, cs, rfl⟩ := List.exists_cons_of_ne_nil hne
  have hc : c.isDigit = true := h c List.mem_cons_self
  have hdrop : (c :: cs).dropWhile isSpace = c :: cs := by
    rw [List.dropWhile_cons, isSpace_of_isDigit hc]
    rfl
  unfold readInt
  rw [hdrop]
  -- a digit is not a sign
  split
  · rename_i heq
    rw [(List.cons.inj heq).1] at hc
    exact absurd hc (by decide)
  · rename_i heq
    rw [(List.cons.inj heq).1] at hc
    exact absurd hc (by decide)
  · rw [readNat_digits h hne]
    rfl

/-- Reading is the inverse of printing. -/
theorem readInt_ofInt (i : Int) : readInt (ofInt i) = some i := by
  have hdigits := digits_toDigits i.natAbs
  unfold ofInt
  split
  · have hread : readInt ('-' :: Nat.toDigits 10 i.natAbs) =
        (readNat (Nat.toDigits 10 i.natAbs)).map fun n => -(n : Int) := rfl
    have habs : -(i.natAbs : Int) = i := by omega
    rw [hread, readNat_digits hdigits Nat.toDigits_ne_nil, Nat.ofDigitChars_ten_toDigits]
    exact congrArg some habs
  · rw [readInt_digits hdigits Nat.toDigits_ne_nil, Nat.ofDigitChars_ten_toDigits]
    exact congrArg some (by omega)

theorem ofInt_ne_nil (i : Int) : ofInt i ≠ [] := by
  unfold ofInt
  split
  · exact List.cons_ne_nil _ _
  · exact Nat.toDigits_ne_nil

/-- A number is printed with digits and a sign. -/
theorem mem_ofInt {i : Int} {c : Char} (h : c ∈ ofInt i) : c = '-' ∨ c.isDigit = true := by
  unfold ofInt at h
  split at h
  · rcases List.mem_cons.mp h with hsign | hdigit
    · exact .inl hsign
    · exact .inr (digits_toDigits _ c hdigit)
  · exact .inr (digits_toDigits _ c h)

/-- The number of `k` digits is below `10 ^ k`. -/
theorem ofDigitChars_lt {s : List Char} (h : Digits s) :
    Nat.ofDigitChars 10 s 0 < 10 ^ s.length := by
  induction s with
  | nil => simp
  | cons c cs ih =>
      have hc := h c List.mem_cons_self
      have hrest := ih fun d hd => h d (List.mem_cons_of_mem c hd)
      simp only [Char.isDigit, Bool.and_eq_true, decide_eq_true_eq] at hc
      have hhi : c.toNat ≤ 57 := hc.2
      have hdigit : c.toNat - '0'.toNat ≤ 9 := by
        have hzero : '0'.toNat = 48 := rfl
        omega
      rw [Nat.ofDigitChars_cons, Nat.ofDigitChars_eq_ofDigitChars_zero, Nat.mul_zero, Nat.zero_add,
        List.length_cons, Nat.pow_succ]
      have hmul := Nat.mul_le_mul_left (10 ^ cs.length) hdigit
      omega

/-! ## Lines -/

/-- The parts of a text that end at the separator `sep` or at the end of the text, if the part
    before the end is not empty. The first part begins with `buffer`. -/
def getlines (sep : Char) : List Char → List Char → List (List Char)
  | buffer, [] => if buffer = [] then [] else [buffer]
  | buffer, c :: s =>
    if c = sep then buffer :: getlines sep [] s else getlines sep (buffer ++ [c]) s

theorem getlines_append {sep : Char} {p : List Char} (hp : sep ∉ p) (buffer s : List Char) :
    getlines sep buffer (p ++ s) = getlines sep (buffer ++ p) s := by
  induction p generalizing buffer with
  | nil => simp
  | cons c p ih =>
      have hc : c ≠ sep := fun heq => hp (heq ▸ List.mem_cons_self)
      rw [List.cons_append, getlines, if_neg hc, ih fun hmem => hp (List.mem_cons_of_mem c hmem)]
      simp

/-- Splitting is the inverse of joining parts that are not empty. -/
theorem getlines_intercalate {sep : Char} {parts : List (List Char)}
    (h : ∀ p ∈ parts, p ≠ [] ∧ sep ∉ p) : getlines sep [] ([sep].intercalate parts) = parts := by
  induction parts with
  | nil => rfl
  | cons p parts ih =>
      obtain ⟨hne, hsep⟩ := h p List.mem_cons_self
      have hrest := ih fun q hq => h q (List.mem_cons_of_mem p hq)
      cases parts with
      | nil =>
          have hp := getlines_append hsep [] []
          rw [List.append_nil] at hp
          simp [List.intercalate, hp, getlines, hne]
      | cons q qs =>
          have hjoin : [sep].intercalate (p :: q :: qs) =
              p ++ (sep :: [sep].intercalate (q :: qs)) := by
            simp [List.intercalate, List.intersperse]
          rw [hjoin, getlines_append hsep, List.nil_append, getlines, if_pos rfl, hrest]

end Text
