import Mathlib

/-!
# Sorting by a key

What the C++ standard promises of `std::sort` with a comparator that compares
an integer key: a rearrangement in which the keys do not decrease. The order
of equal keys is the implementation's business.
-/

namespace Lib.Sort

structure StdSort where
  sort {α : Type} (key : α → Int) : List α → List α
  perm {α : Type} (key : α → Int) (xs : List α) : (sort key xs).Perm xs
  sorted {α : Type} (key : α → Int) (xs : List α) :
    (sort key xs).Pairwise fun a b => key a ≤ key b

def insertion : StdSort where
  sort key := List.insertionSort fun a b => key a ≤ key b
  perm key := List.perm_insertionSort _
  sorted key xs := by
    have htotal : Std.Total fun a b => key a ≤ key b := ⟨fun a b => Int.le_total (key a) (key b)⟩
    have htrans : IsTrans _ fun a b => key a ≤ key b := ⟨fun a b c => Int.le_trans⟩
    exact List.pairwise_insertionSort _ xs

/-- In a sorted list the first match has the least key among the matches. -/
theorem find?_least {key : α → Int} {xs : List α}
    (hsorted : xs.Pairwise fun a b => key a ≤ key b) (hfind : xs.find? p = some a) :
    ∀ b ∈ xs, p b = true → key a ≤ key b := by
  induction xs with
  | nil => simp at hfind
  | cons x xs ih =>
    obtain ⟨hle, hsorted⟩ := List.pairwise_cons.mp hsorted
    intro b hb hpb
    by_cases hx : p x = true
    · have hxa : x = a := by simpa [List.find?_cons_of_pos hx] using hfind
      rcases List.mem_cons.mp hb with rfl | hb
      · exact le_of_eq (by rw [hxa])
      · exact hxa ▸ hle b hb
    · rw [List.find?_cons_of_neg hx] at hfind
      rcases List.mem_cons.mp hb with rfl | hb
      · exact absurd hpb hx
      · exact ih hsorted hfind b hb hpb

end Lib.Sort
