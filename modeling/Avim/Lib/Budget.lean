import Mathlib

/-!
# Tokens that pay for what they cause

Tokens are injected, and each descendant remembers its root. A token in flight
can be consumed, in any order: it may produce other tokens of the same root
and leaves records. Where the records of a step and the potential of what it
produces never exceed the potential of what it consumes, the records of a root
never exceed the potential of the token that was injected.
-/

namespace Lib.Budget

variable {τ ρ : Type*}

structure Tokens (τ ρ : Type*) where
  -- the roots, numbered in the order in which they came
  injected : List τ
  inFlight : List (Nat × τ)
  log : List (Nat × ρ)

namespace Tokens

def empty : Tokens τ ρ := ⟨[], [], []⟩

def inject (s : Tokens τ ρ) (x : τ) : Tokens τ ρ :=
  ⟨s.injected ++ [x], s.inFlight ++ [(s.injected.length, x)], s.log⟩

def consume (s : Tokens τ ρ) (i : Nat) (produce : τ → List τ × List ρ) : Tokens τ ρ :=
  match s.inFlight[i]? with
  | none => s
  | some (root, x) =>
    ⟨s.injected, s.inFlight.eraseIdx i ++ (produce x).1.map (root, ·),
      s.log ++ (produce x).2.map (root, ·)⟩

end Tokens

def total (f : α → Nat) (root : Nat) (xs : List (Nat × α)) : Nat :=
  (xs.map fun x => if x.1 = root then f x.2 else 0).sum

@[simp] theorem total_append (f : α → Nat) (root : Nat) (xs ys : List (Nat × α)) :
    total f root (xs ++ ys) = total f root xs + total f root ys := by
  simp [total]

theorem total_map (f : α → Nat) (root other : Nat) (xs : List α) :
    total f root (xs.map (other, ·)) = if other = root then (xs.map f).sum else 0 := by
  by_cases h : other = root
  · simp [total, h, Function.comp_def]
  · simp [total, h, Function.comp_def]

theorem total_eraseIdx (f : α → Nat) (root : Nat) {xs : List (Nat × α)}
    (h : xs[i]? = some (other, x)) :
    total f root (xs.eraseIdx i) + (if other = root then f x else 0) = total f root xs := by
  obtain ⟨hi, hx⟩ := List.getElem?_eq_some_iff.mp h
  have hperm := (List.getElem_cons_eraseIdx_perm hi).map
    fun x : Nat × α => if x.1 = root then f x.2 else 0
  have hsum := hperm.sum_eq
  rw [hx, List.map_cons, List.sum_cons] at hsum
  rw [total, total, ← hsum, Nat.add_comm]

/-- What a root may still cause. -/
def budget (φ : τ → Nat) (s : Tokens τ ρ) (root : Nat) : Nat := ((s.injected[root]?).map φ).getD 0

/-- Nobody has spent more than was injected for it, potential in flight
included. -/
def Within (φ : τ → Nat) (cost : ρ → Nat) (s : Tokens τ ρ) : Prop :=
  ∀ root, total cost root s.log + total φ root s.inFlight ≤ budget φ s root

variable {φ : τ → Nat} {cost : ρ → Nat} {s : Tokens τ ρ}

theorem within_empty : Within φ cost (.empty : Tokens τ ρ) := fun root => by
  simp [Tokens.empty, total, budget]

theorem Within.inject (h : Within φ cost s) (x : τ) : Within φ cost (s.inject x) := by
  intro root
  have hroot := h root
  simp only [Tokens.inject, total_append, budget] at hroot ⊢
  by_cases hnew : root = s.injected.length
  · rw [hnew] at hroot ⊢
    simp only [List.getElem?_eq_none (Nat.le_refl _), Option.map_none, Option.getD_none] at hroot
    simp [total] at hroot ⊢
    omega
  · have hsame : (s.injected ++ [x])[root]? = s.injected[root]? := by
      rw [List.getElem?_append]
      split
      · rfl
      · rw [List.getElem?_eq_none (by simp; omega), List.getElem?_eq_none (by omega)]
    rw [hsame]
    simpa [total, Ne.symm hnew] using hroot

theorem Within.consume (h : Within φ cost s) (i : Nat) {produce : τ → List τ × List ρ}
    (hpays : ∀ root x, (root, x) ∈ s.inFlight →
      ((produce x).2.map cost).sum + ((produce x).1.map φ).sum ≤ φ x) :
    Within φ cost (s.consume i produce) := by
  unfold Tokens.consume
  split
  · exact h
  · rename_i other x hx
    intro root
    have hroot := h root
    have hpay := hpays other x (List.mem_of_getElem? hx)
    have herase := total_eraseIdx φ root hx
    simp only [total_append, total_map, budget] at hroot ⊢
    split at herase
    · rename_i hsame
      simp only [hsame, if_true]
      omega
    · rename_i hother
      simp only [hother, if_false]
      omega

theorem Within.spent (h : Within φ cost s) (hx : s.injected[root]? = some x) :
    total cost root s.log ≤ φ x := by
  have hroot := h root
  rw [budget, hx] at hroot
  simp only [Option.map_some, Option.getD_some] at hroot
  omega

/-- A property of tokens and one of records that consumption hands down. -/
theorem consume_all {P : τ → Prop} {R : ρ → Prop} {produce : τ → List τ × List ρ}
    (hp : ∀ x, P x → ∀ y ∈ (produce x).1, P y) (hr : ∀ x, P x → ∀ r ∈ (produce x).2, R r)
    (h : (∀ t ∈ s.inFlight, P t.2) ∧ ∀ r ∈ s.log, R r.2) (i : Nat) :
    (∀ t ∈ (s.consume i produce).inFlight, P t.2) ∧ ∀ r ∈ (s.consume i produce).log, R r.2 := by
  unfold Tokens.consume
  split
  · exact h
  · rename_i root x hx
    have hPx : P x := h.1 _ (List.mem_of_getElem? hx)
    refine ⟨fun t ht => ?_, fun r hm => ?_⟩
    · rcases List.mem_append.mp ht with ht | ht
      · exact h.1 t (List.mem_of_mem_eraseIdx ht)
      · obtain ⟨y, hy, rfl⟩ := List.mem_map.mp ht
        exact hp x hPx y hy
    · rcases List.mem_append.mp hm with hm | hm
      · exact h.2 r hm
      · obtain ⟨y, hy, rfl⟩ := List.mem_map.mp hm
        exact hr x hPx y hy

end Lib.Budget
