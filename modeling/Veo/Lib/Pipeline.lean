-- SUMMARY: A pipeline that takes items in order, gives each a result, and hands the results out in any order: conservation and order.
import Mathlib.Data.List.Perm.Basic
import Mathlib.Data.List.Nodup

/-!
# Pipelines

Items are accepted into a queue. A single worker takes the first item, works on it and
puts it among the finished ones with the result; or it drops it there with a default
result. Finished items are handed out one at a time, in any order. The lists `accepted`,
`ran`, `dropped` and `delivered` are the history.
-/

structure Pipeline (α ρ : Type) where
  accepted : List α
  waiting : List α
  /-- The item in the worker's hands, with its result when it has one. -/
  held : Option (α × Option ρ)
  finished : List (α × Option ρ)
  delivered : List (α × Option ρ)
  ran : List (α × ρ)
  dropped : List α

namespace Pipeline

variable {α ρ : Type}

/-- The item in the worker's hands that has no result yet. -/
def running (p : Pipeline α ρ) : List α :=
  match p.held with
  | some (a, none) => [a]
  | _ => []

/-- One step of a pipeline whose default result is `d`. -/
inductive Step (d : ρ) : Pipeline α ρ → Pipeline α ρ → Prop where
  | accept (p : Pipeline α ρ) (a : α) (hnew : a ∉ p.accepted) :
      Step d p { p with accepted := p.accepted ++ [a], waiting := p.waiting ++ [a] }
  | take (p : Pipeline α ρ) (a : α) (rest : List α) (hwait : p.waiting = a :: rest)
      (hheld : p.held = none) (hdrop : p.dropped = []) :
      Step d p { p with waiting := rest, held := some (a, none) }
  | run (p : Pipeline α ρ) (a : α) (r : ρ) (hheld : p.held = some (a, none))
      (hdrop : p.dropped = []) :
      Step d p { p with held := some (a, some r), ran := p.ran ++ [(a, r)] }
  | finish (p : Pipeline α ρ) (a : α) (r : ρ) (hheld : p.held = some (a, some r)) :
      Step d p { p with held := none, finished := p.finished ++ [(a, some r)] }
  | drop (p : Pipeline α ρ) (a : α) (rest : List α) (hwait : p.waiting = a :: rest)
      (hheld : p.held = none) :
      Step d p { p with waiting := rest, held := some (a, some d), dropped := p.dropped ++ [a] }
  | deliver (p : Pipeline α ρ) (x : α × Option ρ) (l₁ l₂ : List (α × Option ρ))
      (hfin : p.finished = l₁ ++ x :: l₂) :
      Step d p { p with finished := l₁ ++ l₂, delivered := p.delivered ++ [x] }

/-- The items that were accepted and have a result, and the one in the worker's hands. -/
def settled (p : Pipeline α ρ) : List (α × Option ρ) := p.held.toList ++ p.finished ++ p.delivered

/-- The places an accepted item can be in. -/
def places (p : Pipeline α ρ) : List α :=
  p.waiting ++ p.held.toList.map Prod.fst ++ p.finished.map Prod.fst ++ p.delivered.map Prod.fst

/-- The items that were accepted and not handed out yet. -/
def live (p : Pipeline α ρ) : List α :=
  p.waiting ++ p.held.toList.map Prod.fst ++ p.finished.map Prod.fst

/-- Where an item's result comes from: it was run with this result, or dropped with the
    default result. -/
def Origin (d : ρ) (p : Pipeline α ρ) (a : α) (r : ρ) : Prop :=
  (a, r) ∈ p.ran ∨ (r = d ∧ a ∈ p.dropped)

structure Inv (d : ρ) (p : Pipeline α ρ) : Prop where
  nodup : p.accepted.Nodup
  /-- Every accepted item is in exactly one place. -/
  conserved : p.accepted.Perm p.places
  /-- Items are run, and then dropped, in the order in which they were accepted. -/
  order : p.accepted = p.ran.map Prod.fst ++ p.running ++ p.dropped ++ p.waiting
  /-- Every result comes from the item's own run, or from its being dropped. -/
  origin : ∀ a r, (a, some r) ∈ p.settled → p.Origin d a r
  /-- Finished and delivered items have a result. -/
  result : ∀ a r, (a, r) ∈ p.finished ++ p.delivered → r.isSome = true

theorem Origin.mono {d : ρ} {p q : Pipeline α ρ} {a : α} {r : ρ} (h : p.Origin d a r)
    (hran : p.ran ⊆ q.ran) (hdrop : p.dropped ⊆ q.dropped) : q.Origin d a r := by
  rcases h with h | ⟨hr, h⟩
  · exact .inl (hran h)
  · exact .inr ⟨hr, hdrop h⟩

/-- An item that was handed out is not in the pipeline any more. -/
theorem Inv.live_not_delivered {d : ρ} {p : Pipeline α ρ} (h : p.Inv d) {a : α} (ha : a ∈ p.live) :
    a ∉ p.delivered.map Prod.fst := by
  have hnodup : (p.live ++ p.delivered.map Prod.fst).Nodup := h.conserved.nodup_iff.mp h.nodup
  exact fun hd => List.disjoint_of_nodup_append hnodup ha hd

theorem Inv.live_accepted {d : ρ} {p : Pipeline α ρ} (h : p.Inv d) {a : α} (ha : a ∈ p.live) :
    a ∈ p.accepted :=
  h.conserved.mem_iff.mpr (List.mem_append_left (p.delivered.map Prod.fst) ha)

theorem Inv.ran_accepted {d : ρ} {p : Pipeline α ρ} (h : p.Inv d) {x : α × ρ} (hx : x ∈ p.ran) :
    x.1 ∈ p.accepted := by
  rw [h.order]
  simp only [List.mem_append]
  exact .inl (.inl (.inl (List.mem_map_of_mem hx)))

/-- The empty pipeline. -/
def empty : Pipeline α ρ := ⟨[], [], none, [], [], [], []⟩

theorem empty_inv (d : ρ) : (empty : Pipeline α ρ).Inv d where
  nodup := .nil
  conserved := .refl _
  order := rfl
  origin := fun _ _ h => by cases h
  result := fun _ _ h => by cases h

namespace Step
variable {d : ρ} {p q : Pipeline α ρ}

/-- A step moves items from place to place, or adds one that it accepts. -/
theorem conserved (h : Step d p q) (hp : p.accepted.Perm p.places) : q.accepted.Perm q.places := by
  cases h with
  | accept a hnew =>
      refine (hp.append_right [a]).trans ?_
      simp only [places, List.append_assoc]
      refine List.Perm.append_left _ ?_
      have hmoved := List.perm_append_singleton a
        (p.held.toList.map Prod.fst ++ p.finished.map Prod.fst ++ p.delivered.map Prod.fst)
      simpa only [List.append_assoc, List.singleton_append] using hmoved
  | take a rest hwait hheld hdrop =>
      refine hp.trans ?_
      simp only [places, hwait, hheld, Option.toList_none, Option.toList_some, List.map_nil,
        List.map_cons, List.append_nil, List.append_assoc, List.cons_append]
      exact List.perm_middle.symm
  | run a r hheld hdrop => simpa [places, hheld] using hp
  | finish a r hheld =>
      refine hp.trans ?_
      simp only [places, hheld, Option.toList_none, Option.toList_some, List.map_nil,
        List.map_cons, List.map_append, List.append_nil, List.append_assoc, List.cons_append,
        List.nil_append]
      exact List.Perm.append_left _ List.perm_middle.symm
  | drop a rest hwait hheld =>
      refine hp.trans ?_
      simp only [places, hwait, hheld, Option.toList_none, Option.toList_some, List.map_nil,
        List.map_cons, List.append_nil, List.append_assoc, List.cons_append]
      exact List.perm_middle.symm
  | deliver x l₁ l₂ hfin =>
      refine hp.trans ?_
      simp only [places, hfin, List.map_append, List.map_cons, List.map_nil, List.append_assoc,
        List.cons_append]
      refine List.Perm.append_left _ (List.Perm.append_left _ (List.Perm.append_left _ ?_))
      refine (List.perm_append_singleton x.1 _).symm.trans ?_
      simp

/-- Items leave the queue at its front. -/
theorem order (h : Step d p q)
    (hp : p.accepted = p.ran.map Prod.fst ++ p.running ++ p.dropped ++ p.waiting) :
    q.accepted = q.ran.map Prod.fst ++ q.running ++ q.dropped ++ q.waiting := by
  cases h with
  | accept a hnew => simp [running, hp]
  | take a rest hwait hheld hdrop => simpa [running, hwait, hheld, hdrop] using hp
  | run a r hheld hdrop => simpa [running, hheld] using hp
  | finish a r hheld => simpa [running, hheld] using hp
  | drop a rest hwait hheld => simpa [running, hwait, hheld] using hp
  | deliver x l₁ l₂ hfin => exact hp

/-- A step gives a result only to the item it runs or drops. -/
theorem origin (h : Step d p q) (hp : ∀ a r, (a, some r) ∈ p.settled → p.Origin d a r) :
    ∀ a r, (a, some r) ∈ q.settled → q.Origin d a r := by
  intro b v hb
  cases h with
  | accept a hnew => exact hp b v hb
  | take a rest hwait hheld hdrop =>
      apply hp b v
      simpa [settled, hheld] using hb
  | run a r hheld hdrop =>
      rcases List.mem_cons.mp hb with hnew | hold
      · cases hnew
        exact .inl (by simp)
      · refine (hp b v ?_).mono (List.subset_append_left _ _) (List.Subset.refl _)
        simp only [settled, hheld, Option.toList_some]
        exact List.mem_cons_of_mem _ hold
  | finish a r hheld =>
      apply hp b v
      simp only [settled, hheld, Option.toList_none, Option.toList_some, List.mem_append,
        List.mem_cons] at hb ⊢
      grind
  | drop a rest hwait hheld =>
      rcases List.mem_cons.mp hb with hnew | hold
      · cases hnew
        exact .inr ⟨rfl, by simp⟩
      · refine (hp b v ?_).mono (List.Subset.refl _) (List.subset_append_left _ _)
        simpa [settled, hheld] using hold
  | deliver x l₁ l₂ hfin =>
      apply hp b v
      simp only [settled, hfin, List.mem_append, List.mem_cons] at hb ⊢
      grind

/-- Only items with a result are finished. -/
theorem result (h : Step d p q)
    (hp : ∀ a r, (a, r) ∈ p.finished ++ p.delivered → r.isSome = true) :
    ∀ a r, (a, r) ∈ q.finished ++ q.delivered → r.isSome = true := by
  intro b v hb
  cases h with
  | accept a hnew => exact hp b v hb
  | take a rest hwait hheld hdrop => exact hp b v hb
  | run a r hheld hdrop => exact hp b v hb
  | finish a r hheld =>
      simp only [List.mem_append, List.mem_cons] at hb hp
      grind
  | drop a rest hwait hheld => exact hp b v hb
  | deliver x l₁ l₂ hfin =>
      apply hp b v
      simp only [hfin, List.mem_append, List.mem_cons] at hb ⊢
      grind

/-- An item gets into the pipeline by being accepted. -/
theorem live (h : Step d p q) {b : α} (hb : b ∈ q.live) :
    b ∈ p.live ∨ q.accepted = p.accepted ++ [b] := by
  cases h with
  | accept a hnew =>
      simp only [Pipeline.live, List.mem_append, List.mem_singleton] at hb ⊢
      grind
  | run a r hheld hdrop => exact .inl (by simpa [Pipeline.live, hheld] using hb)
  | take a rest hwait hheld hdrop | drop a rest hwait hheld =>
      left
      simp only [Pipeline.live, hwait, hheld, Option.toList_none, Option.toList_some, List.map_cons,
        List.map_nil, List.mem_append, List.mem_cons, List.not_mem_nil] at hb ⊢
      grind
  | finish a r hheld =>
      left
      simp only [Pipeline.live, hheld, Option.toList_none, Option.toList_some, List.map_cons,
        List.map_nil, List.map_append, List.mem_append, List.mem_cons, List.not_mem_nil] at hb ⊢
      grind
  | deliver x l₁ l₂ hfin =>
      left
      simp only [Pipeline.live, hfin, List.map_append, List.map_cons, List.mem_append,
        List.mem_cons] at hb ⊢
      grind

/-- A finished item stays finished until it is handed out. -/
theorem done (h : Step d p q) {x : α × Option ρ} (hx : x ∈ p.finished ++ p.delivered) :
    x ∈ q.finished ++ q.delivered := by
  cases h with
  | finish a r hheld =>
      simp only [List.mem_append] at hx ⊢
      exact hx.imp_left .inl
  | deliver y l₁ l₂ hfin =>
      simp only [hfin, List.mem_append, List.mem_cons] at hx ⊢
      grind
  | _ => exact hx

theorem nodup (h : Step d p q) (hp : p.accepted.Nodup) : q.accepted.Nodup := by
  cases h with
  | accept a hnew =>
      refine List.Nodup.append hp (List.nodup_singleton a) fun x hx hxa => ?_
      exact hnew (List.mem_singleton.mp hxa ▸ hx)
  | _ => exact hp

/-- Every step keeps the invariant. -/
theorem inv (h : Step d p q) (hp : p.Inv d) : q.Inv d where
  nodup := h.nodup hp.nodup
  conserved := h.conserved hp.conserved
  order := h.order hp.order
  origin := h.origin hp.origin
  result := h.result hp.result

end Step

end Pipeline
