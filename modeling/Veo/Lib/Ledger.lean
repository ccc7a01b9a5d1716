-- SUMMARY: Ledgers: who holds each live item of a store, and what the agents have in their hands.
import Mathlib.Data.Finset.Card
import Mathlib.Data.Finset.Insert
import Mathlib.Logic.Function.Basic

/-!
# Ledgers

A store has a set of live items. A ledger `own : A → Option H` names the holder of every item. Some
of the holders are the hands of agents, by an injective `hand : T → H`; what an agent has in its
hand is known independently of the ledger. An item is acquired, is released, or changes its holder.
-/

namespace Ledger

variable {A H T : Type}

/-- The ledger lists the live items and no others. -/
def Balanced (live : Finset A) (own : A → Option H) : Prop := ∀ a, a ∈ live ↔ own a ≠ none

/-- The ledger agrees with the hands of the agents. -/
def Agrees (hand : T → H) (own : A → Option H) (inHand : T → Option A) : Prop :=
  ∀ t a, own a = some (hand t) ↔ inHand t = some a

section Balanced
variable [DecidableEq A] {live : Finset A} {own : A → Option H} {a : A}

theorem Balanced.acquire (hb : Balanced live own) (a : A) (h : H) :
    Balanced (insert a live) (Function.update own a (some h)) := by
  intro b
  by_cases hba : b = a
  · simp [hba]
  · simpa [hba] using hb b

theorem Balanced.release (hb : Balanced live own) (a : A) :
    Balanced (live.erase a) (Function.update own a none) := by
  intro b
  by_cases hba : b = a
  · simp [hba]
  · simpa [hba] using hb b

theorem Balanced.transfer (hb : Balanced live own) (ha : a ∈ live) (h : H) :
    Balanced live (Function.update own a (some h)) := by
  have hacquire := hb.acquire a h
  rwa [Finset.insert_eq_self.mpr ha] at hacquire

end Balanced

/-! ## The hands of the agents -/

section Agrees
variable [DecidableEq A] {hand : T → H} {own : A → Option H} {inHand : T → Option A} {a : A} {t : T}

/-- An item that is in nobody's hand changes its holder or its being live, and does not get into
    a hand. -/
theorem Agrees.update (hag : Agrees hand own inHand) {v : Option H}
    (hout : ∀ t, own a ≠ some (hand t)) (hv : ∀ t, v ≠ some (hand t)) :
    Agrees hand (Function.update own a v) inHand := by
  intro u b
  by_cases hba : b = a
  · rw [hba, Function.update_self]
    exact iff_of_false (hv u) fun h => hout u ((hag u a).mpr h)
  · rw [Function.update_of_ne hba]
    exact hag u b

variable [DecidableEq T]

/-- An agent with an empty hand takes an item. -/
theorem Agrees.take (hag : Agrees hand own inHand) (hinj : Function.Injective hand)
    (hout : ∀ t, own a ≠ some (hand t)) (hempty : inHand t = none) :
    Agrees hand (Function.update own a (some (hand t))) (Function.update inHand t (some a)) := by
  intro u b
  by_cases hut : u = t
  · rw [hut, Function.update_self]
    by_cases hba : b = a
    · simp [hba]
    · rw [Function.update_of_ne hba]
      refine iff_of_false (fun h => ?_) fun h => hba (Option.some.inj h).symm
      cases hempty.symm.trans ((hag t b).mp h)
  · rw [Function.update_of_ne hut]
    by_cases hba : b = a
    · rw [hba, Function.update_self]
      refine iff_of_false (fun h => hut (hinj (Option.some.inj h)).symm) fun h => ?_
      exact hout u ((hag u a).mpr h)
    · rw [Function.update_of_ne hba]
      exact hag u b

/-- An agent lets go of the item in its hand. -/
theorem Agrees.letGo (hag : Agrees hand own inHand) (hinj : Function.Injective hand)
    (hheld : inHand t = some a) {v : Option H} (hv : ∀ t, v ≠ some (hand t)) :
    Agrees hand (Function.update own a v) (Function.update inHand t none) := by
  have hown : own a = some (hand t) := (hag t a).mpr hheld
  intro u b
  by_cases hba : b = a
  · rw [hba, Function.update_self]
    refine iff_of_false (hv u) fun h => ?_
    by_cases hut : u = t
    · rw [hut, Function.update_self] at h
      cases h
    · rw [Function.update_of_ne hut] at h
      have hsame := hown.symm.trans ((hag u a).mpr h)
      exact hut (hinj (Option.some.inj hsame)).symm
  · rw [Function.update_of_ne hba]
    by_cases hut : u = t
    · rw [hut, Function.update_self]
      refine iff_of_false (fun h => ?_) nofun
      have hsame := hheld.symm.trans ((hag t b).mp h)
      exact hba (Option.some.inj hsame).symm
    · rw [Function.update_of_ne hut]
      exact hag u b

end Agrees

/-! ## What one holder has -/

/-- The live items of a holder. -/
def held [DecidableEq H] (live : Finset A) (own : A → Option H) (h : H) : Finset A :=
  live.filter fun a => own a = some h

section Held
variable [DecidableEq A] [DecidableEq H] {live live' : Finset A} {own : A → Option H} {a : A}
  {h : H}

omit [DecidableEq A] in
@[simp] theorem mem_held : a ∈ held live own h ↔ a ∈ live ∧ own a = some h := Finset.mem_filter

/-- A change at an item that the holder has neither before nor after. -/
theorem held_update {v : Option H} (hlive : ∀ b, b ≠ a → (b ∈ live' ↔ b ∈ live))
    (hold : own a ≠ some h) (hnew : v ≠ some h) :
    held live' (Function.update own a v) h = held live own h := by
  ext b
  by_cases hba : b = a
  · simp [hba, hold, hnew]
  · simp [hba, hlive b hba]

/-- The holder gets a live item. -/
theorem card_held_transfer (ha : a ∈ live) (hold : own a ≠ some h) :
    (held live (Function.update own a (some h)) h).card = (held live own h).card + 1 := by
  have hinsert : held live (Function.update own a (some h)) h = insert a (held live own h) := by
    ext b
    by_cases hba : b = a
    · simp [hba, ha]
    · simp [hba]
  rw [hinsert, Finset.card_insert_of_notMem fun hmem => hold (mem_held.mp hmem).2]

end Held

end Ledger
