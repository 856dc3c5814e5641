import Mathlib

/-!
# Backtracking regular expressions

A pattern runs to the list of all its successes in the order a Perl matcher
tries them, each with the groups captured so far and the text left over. The
matcher takes the first success at the leftmost position that has one.
-/

namespace Lib.Regex

variable {α : Type}

inductive Re (α : Type)
  | cls (p : α → Bool)
  -- `[...]*`, the longest repetition first
  | star (p : α → Bool)
  | seq (r s : Re α)
  -- `(...)?`, taken before it is skipped
  | opt (r : Re α)
  | group (i : Nat) (r : Re α)

abbrev Groups (α : Type) := Nat → Option (List α)

/-- What `[...]*` may leave of `s`, the shortest remainder first. -/
def remainders (p : α → Bool) : List α → List (List α)
  | [] => [[]]
  | a :: s => if p a then remainders p s ++ [a :: s] else [a :: s]

def run : Re α → Groups α → List α → List (Groups α × List α)
  | .cls _, _, [] => []
  | .cls p, m, a :: s => if p a then [(m, s)] else []
  | .star p, m, s => (remainders p s).map (m, ·)
  | .seq r r', m, s => (run r m s).flatMap fun x => run r' x.1 x.2
  | .opt r, m, s => run r m s ++ [(m, s)]
  | .group i r, m, s =>
    (run r m s).map fun x => (Function.update x.1 i (some (s.take (s.length - x.2.length))), x.2)

def search (r : Re α) : List α → Option (Groups α)
  | [] => ((run r (fun _ => none) []).head?).map Prod.fst
  | a :: s =>
    match run r (fun _ => none) (a :: s) with
    | x :: _ => some x.1
    | [] => search r s

-- ---------------------------------------------------------------------------
-- The first success
-- ---------------------------------------------------------------------------

def First (r : Re α) (m : Groups α) (s : List α) (x : Groups α × List α) : Prop :=
  ∃ later, run r m s = x :: later

theorem remainders_cons (p : α → Bool) (s : List α) :
    ∃ later, remainders p s = s.dropWhile p :: later := by
  induction s with
  | nil => exact ⟨[], rfl⟩
  | cons a s ih =>
    obtain ⟨later, h⟩ := ih
    by_cases ha : p a
    · exact ⟨later ++ [a :: s], by simp [remainders, ha, h]⟩
    · exact ⟨[], by simp [remainders, ha]⟩

theorem First.cls {p : α → Bool} (h : p a = true) : First (.cls p) m (a :: s) (m, s) :=
  ⟨[], by simp [run, h]⟩

theorem First.star (p : α → Bool) (m : Groups α) (s : List α) :
    First (.star p) m s (m, s.dropWhile p) := by
  obtain ⟨later, h⟩ := remainders_cons p s
  exact ⟨later.map (m, ·), by simp [run, h]⟩

theorem First.seq {r r' : Re α} (h : First r m s (m', t)) (h' : First r' m' t x) :
    First (.seq r r') m s x := by
  obtain ⟨later, h⟩ := h
  obtain ⟨later', h'⟩ := h'
  exact ⟨later' ++ later.flatMap fun x => run r' x.1 x.2, by simp [run, h, h']⟩

theorem First.opt {r : Re α} (h : First r m s x) : First (.opt r) m s x := by
  obtain ⟨later, h⟩ := h
  exact ⟨later ++ [(m, s)], by simp [run, h]⟩

theorem First.skip {r : Re α} (h : run r m s = []) : First (.opt r) m s (m, s) :=
  ⟨[], by simp [run, h]⟩

theorem First.group {r : Re α} (h : First r m (taken ++ t) (m', t)) :
    First (.group i r) m (taken ++ t) (Function.update m' i (some taken), t) := by
  obtain ⟨later, h⟩ := h
  simp [First, run, h]

/-- A group around a repetition captures the longest run of its class. -/
theorem First.group_star (p : α → Bool) (m : Groups α) (s : List α) :
    First (.group i (.star p)) m s
      (Function.update m i (some (s.takeWhile p)), s.dropWhile p) := by
  have h : First (.star p) m (s.takeWhile p ++ s.dropWhile p) (m, s.dropWhile p) := by
    rw [List.takeWhile_append_dropWhile]
    exact First.star p m s
  have hgroup := h.group (i := i)
  rwa [List.takeWhile_append_dropWhile] at hgroup

theorem First.search {r : Re α} (h : First r (fun _ => none) s x) : search r s = some x.1 := by
  obtain ⟨later, h⟩ := h
  cases s with
  | nil => simp [Regex.search, h]
  | cons a s => simp [Regex.search, h]

-- ---------------------------------------------------------------------------
-- No success
-- ---------------------------------------------------------------------------

theorem isSuffix_of_mem_remainders (h : t ∈ remainders (p : α → Bool) s) : t <:+ s := by
  induction s with
  | nil =>
    simp only [remainders, List.mem_singleton] at h
    simp [h]
  | cons a s ih =>
    by_cases ha : p a
    · simp only [remainders, ha, if_true, List.mem_append, List.mem_singleton] at h
      obtain h | rfl := h
      · exact (ih h).trans (List.suffix_cons a s)
      · exact List.suffix_rfl
    · simp only [remainders, ha, Bool.false_eq_true, if_false, List.mem_singleton] at h
      simp [h]

/-- A match never leaves anything but an end of the text it was given. -/
theorem isSuffix_of_mem_run {r : Re α} (h : x ∈ run r m s) : x.2 <:+ s := by
  induction r generalizing m s x with
  | cls p =>
    cases s with
    | nil => simp [run] at h
    | cons a s =>
      by_cases ha : p a
      · simp only [run, ha, if_true, List.mem_singleton] at h
        simp [h]
      · simp [run, ha] at h
  | star p =>
    obtain ⟨t, ht, rfl⟩ := List.mem_map.mp h
    exact isSuffix_of_mem_remainders ht
  | seq r r' ih ih' =>
    obtain ⟨y, hy, hx⟩ := List.mem_flatMap.mp h
    exact (ih' hx).trans (ih hy)
  | opt r ih =>
    obtain hx | hx := List.mem_append.mp h
    · exact ih hx
    · simp [List.mem_singleton.mp hx]
  | group i r ih =>
    obtain ⟨y, hy, rfl⟩ := List.mem_map.mp h
    have hrest : y.2 <:+ s := ih hy
    exact hrest

theorem run_cls_eq_nil {p : α → Bool} (h : ∀ a ∈ s, p a = false) : run (.cls p) m s = [] := by
  cases s with
  | nil => rfl
  | cons a s => simp [run, h a]

theorem run_seq_cls_eq_nil {r : Re α} {p : α → Bool} (h : ∀ a ∈ s, p a = false) :
    run (.seq r (.seq (.cls p) r')) m s = [] := by
  refine List.flatMap_eq_nil_iff.mpr fun x hx => ?_
  have hrest : ∀ a ∈ x.2, p a = false := fun a ha =>
    h a ((isSuffix_of_mem_run hx).subset ha)
  show (run (.cls p) x.1 x.2).flatMap _ = []
  rw [run_cls_eq_nil hrest]
  rfl

/-- A pattern with a symbol that the text does not have is not found in it. -/
theorem search_seq_cls_eq_none {r : Re α} {p : α → Bool} (h : ∀ a ∈ s, p a = false) :
    search (.seq r (.seq (.cls p) r')) s = none := by
  induction s with
  | nil => simp [search, run_seq_cls_eq_nil h]
  | cons a s ih =>
    simp only [search, run_seq_cls_eq_nil h]
    exact ih fun b hb => h b (List.mem_cons_of_mem a hb)

end Lib.Regex
