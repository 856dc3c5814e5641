import Mathlib

/-!
# Cutting a list into pieces

All pieces have the same length but the last, which may be shorter. Cutting
and concatenating undo each other, and there are as many pieces as it takes.
-/

namespace Lib.Pieces

variable {α : Type*}

/-- The pieces of length `k` of `xs`, in order; none when `k` is zero. -/
def pieces (k : Nat) (xs : List α) : List (List α) :=
  if k = 0 ∨ xs = [] then [] else xs.take k :: pieces k (xs.drop k)
termination_by xs.length
decreasing_by
  rename_i h
  have hpos : 0 < xs.length := List.length_pos_iff.mpr fun hx => h (.inr hx)
  simp only [List.length_drop]
  omega

@[simp] theorem pieces_nil (k : Nat) : pieces k ([] : List α) = [] := by
  rw [pieces]
  simp

theorem pieces_cons (hk : 0 < k) (hxs : xs ≠ ([] : List α)) :
    pieces k xs = xs.take k :: pieces k (xs.drop k) := by
  rw [pieces, if_neg]
  rintro (h | h)
  · omega
  · exact hxs h

theorem flatten_pieces (hk : 0 < k) (xs : List α) : (pieces k xs).flatten = xs := by
  fun_induction pieces k xs with
  | case1 xs h =>
    rcases h with h | h
    · omega
    · simp [h]
  | case2 xs h ih => rw [List.flatten_cons, ih, List.take_append_drop]

theorem length_le_of_mem_pieces {xs : List α} (h : piece ∈ pieces k xs) : piece.length ≤ k := by
  fun_induction pieces k xs with
  | case1 xs hxs => simp at h
  | case2 xs hxs ih =>
    rcases List.mem_cons.mp h with rfl | h
    · simp
    · exact ih h

theorem pieces_flatten (hk : 0 < k) {cs : List (List α)} (hcs : ∀ c ∈ cs, c.length = k) :
    pieces k cs.flatten = cs := by
  induction cs with
  | nil => simp
  | cons c cs ih =>
    have hc : c.length = k := hcs c (by simp)
    have hne : (c :: cs).flatten ≠ [] := by
      intro h
      have : c = [] := (List.append_eq_nil_iff.mp h).1
      rw [this] at hc
      simp at hc
      omega
    rw [pieces_cons hk hne, List.flatten_cons, ← hc, List.take_left, List.drop_left, hc,
      ih fun d hd => hcs d (List.mem_cons_of_mem _ hd)]

theorem length_pieces (hk : 0 < k) (xs : List α) :
    (pieces k xs).length = (xs.length + (k - 1)) / k := by
  fun_induction pieces k xs with
  | case1 xs h =>
    rcases h with h | h
    · omega
    · simp [h, Nat.div_eq_of_lt (show k - 1 < k by omega)]
  | case2 xs h ih =>
    have hpos : 0 < xs.length := List.length_pos_iff.mpr fun hx => h (.inr hx)
    rw [List.length_cons, ih, List.length_drop]
    by_cases hle : k ≤ xs.length
    · have : xs.length + (k - 1) = xs.length - k + (k - 1) + k := by omega
      rw [this, Nat.add_div_right _ hk]
    · have hone : xs.length + (k - 1) = xs.length - 1 + k := by omega
      have hzero : xs.length - k = 0 := by omega
      rw [hone, hzero, Nat.add_div_right _ hk, Nat.div_eq_of_lt (by omega),
        Nat.div_eq_of_lt (by omega)]

theorem length_flatten_of_forall {cs : List (List α)} (hcs : ∀ c ∈ cs, c.length = k) :
    cs.flatten.length = cs.length * k := by
  induction cs with
  | nil => simp
  | cons c cs ih =>
    rw [List.flatten_cons, List.length_append, hcs c (by simp),
      ih fun d hd => hcs d (List.mem_cons_of_mem _ hd), List.length_cons, Nat.add_mul]
    omega

end Lib.Pieces
