import Mathlib

/-!
# Runs of a machine that answers

A machine takes an input, moves and gives a list of outputs. Two rules carry
over from one step to a whole run: an invariant, and the balance of a first-in
first-out store, where what goes out followed by what is kept is what was kept
followed by what comes in.

A machine that can fail stops where it does. `Along` speaks of the steps of
such a run, `Tried` also of the one that fails, `Always` of the states it
passes through.
-/

namespace Lib.Run

variable {σ ι ω β : Type*} (step : σ → ι → σ × List ω)

def trace (s : σ) : List ι → σ × List ω
  | [] => (s, [])
  | i :: is => ((trace (step s i).1 is).1, (step s i).2 ++ (trace (step s i).1 is).2)

/-- What `f` gives for the steps of a run, in order. -/
def gather (f : σ → ι → List β) (s : σ) : List ι → List β
  | [] => []
  | i :: is => f s i ++ gather f (step s i).1 is

/-- Every step of the run meets `P`. -/
def Throughout (P : σ → ι → Prop) (s : σ) : List ι → Prop
  | [] => True
  | i :: is => P s i ∧ Throughout P (step s i).1 is

variable {step} {s : σ}

theorem trace_append (is js : List ι) :
    trace step s (is ++ js) =
      ((trace step (trace step s is).1 js).1,
        (trace step s is).2 ++ (trace step (trace step s is).1 js).2) := by
  induction is generalizing s with
  | nil => rfl
  | cons i is ih => simp [trace, ih]

theorem trace_invariant {I : σ → Prop} (hstep : ∀ s i, I s → I (step s i).1) (hs : I s)
    (is : List ι) : I (trace step s is).1 := by
  induction is generalizing s with
  | nil => exact hs
  | cons i is ih => exact ih (hstep s i hs)

theorem trace_outputs {I : σ → Prop} {Out : ω → Prop}
    (hstep : ∀ s i, I s → I (step s i).1) (hout : ∀ s i, I s → ∀ o ∈ (step s i).2, Out o)
    (hs : I s) (is : List ι) : ∀ o ∈ (trace step s is).2, Out o := by
  induction is generalizing s with
  | nil => simp [trace]
  | cons i is ih =>
    intro o ho
    rcases List.mem_append.mp ho with ho | ho
    · exact hout s i hs o ho
    · exact ih (hstep s i hs) o ho

/-- The balance of a first-in first-out store, from its balance in one step. -/
theorem trace_fifo {I : σ → Prop} (hinv : ∀ s i, I s → I (step s i).1)
    {K : σ → List β} {taken : ι → Option β} {given : ω → Option β}
    (hstep : ∀ s i, I s →
      (step s i).2.filterMap given ++ K (step s i).1 = K s ++ (taken i).toList)
    (hs : I s) (is : List ι) :
    (trace step s is).2.filterMap given ++ K (trace step s is).1 =
      K s ++ is.filterMap taken := by
  induction is generalizing s with
  | nil => simp [trace]
  | cons i is ih =>
    calc (trace step s (i :: is)).2.filterMap given ++ K (trace step s (i :: is)).1
        = (step s i).2.filterMap given ++
            ((trace step (step s i).1 is).2.filterMap given ++
              K (trace step (step s i).1 is).1) := by simp [trace]
      _ = (step s i).2.filterMap given ++ (K (step s i).1 ++ is.filterMap taken) := by
          rw [ih (hinv s i hs)]
      _ = K s ++ ((taken i).toList ++ is.filterMap taken) := by
          rw [← List.append_assoc, hstep s i hs, List.append_assoc]
      _ = K s ++ (i :: is).filterMap taken := by
          cases h : taken i <;> simp [h]

theorem gather_append (f : σ → ι → List β) (is js : List ι) :
    gather step f s (is ++ js) = gather step f s is ++ gather step f (trace step s is).1 js := by
  induction is generalizing s with
  | nil => rfl
  | cons i is ih => simp [gather, trace, ih]

theorem gather_eq_nil {f : σ → ι → List β} {is : List ι} (h : ∀ s, ∀ i ∈ is, f s i = []) :
    gather step f s is = [] := by
  induction is generalizing s with
  | nil => rfl
  | cons i is ih =>
    rw [gather, h s i List.mem_cons_self, List.nil_append]
    exact ih fun t j hj => h t j (List.mem_cons_of_mem i hj)

theorem gather_inputs (f : ι → Option β) (s : σ) (is : List ι) :
    gather step (fun _ i => (f i).toList) s is = is.filterMap f := by
  induction is generalizing s with
  | nil => rfl
  | cons i is ih =>
    rw [gather, ih]
    cases h : f i with
    | none => simp [h]
    | some b => simp [h]

/-- The balance of a store that gives things out in any order. -/
theorem trace_balance {K : σ → List β} {taken : σ → ι → List β} {given : ω → Option β}
    (hstep : ∀ s i, ((step s i).2.filterMap given ++ K (step s i).1).Perm (K s ++ taken s i))
    (s : σ) (is : List ι) :
    ((trace step s is).2.filterMap given ++ K (trace step s is).1).Perm
      (K s ++ gather step taken s is) := by
  induction is generalizing s with
  | nil => simp [trace, gather]
  | cons i is ih =>
    rw [trace, List.filterMap_append, List.append_assoc, gather, ← List.append_assoc (K s)]
    have hrest := (ih (step s i).1).append_left ((step s i).2.filterMap given)
    refine hrest.trans ?_
    rw [← List.append_assoc]
    exact (hstep s i).append_right _

/-- Nothing is gathered twice if each step gathers something new. -/
theorem gather_nodup_iff {J : σ → List β → Prop} {f : σ → ι → List β} {P : σ → ι → Prop}
    (hstep : ∀ s i got, J s got → J (step s i).1 (got ++ f s i))
    (hP : ∀ s i got, J s got → ((f s i).Nodup ∧ List.Disjoint got (f s i) ↔ P s i))
    {got : List β} (hs : J s got) (hgot : got.Nodup) (is : List ι) :
    (got ++ gather step f s is).Nodup ↔ Throughout step P s is := by
  induction is generalizing s got with
  | nil => simpa [gather, Throughout] using hgot
  | cons i is ih =>
    rw [gather, ← List.append_assoc, Throughout, ← hP s i got hs]
    constructor
    · intro h
      have hfirst := List.nodup_append'.mp (List.Nodup.of_append_left h)
      exact ⟨hfirst.2, (ih (hstep s i got hs) (List.Nodup.of_append_left h)).mp h⟩
    · rintro ⟨hnew, hrest⟩
      exact (ih (hstep s i got hs) (List.nodup_append'.mpr ⟨hgot, hnew⟩)).mpr hrest

-- ---------------------------------------------------------------------------
-- Machines that can fail
-- ---------------------------------------------------------------------------

section

variable {ε : Type*} (next : σ → ι → Except ε σ)

/-- Every step that is taken satisfies `R`. -/
def Along (R : σ → ι → σ → Prop) : σ → List ι → Prop
  | _, [] => True
  | s, i :: is => ∀ t, next s i = .ok t → R s i t ∧ Along R t is

/-- Every state that is reached satisfies `Q`, the first one included. -/
def Always (Q : σ → Prop) : σ → List ι → Prop
  | s, [] => Q s
  | s, i :: is => Q s ∧ ∀ t, next s i = .ok t → Always Q t is

/-- `Always` for properties of a state and of the inputs that led to it:
`done` are those before the first state. -/
def AlwaysSince (Q : List ι → σ → Prop) (done : List ι) : σ → List ι → Prop
  | s, [] => Q done s
  | s, i :: is => Q done s ∧ ∀ t, next s i = .ok t → AlwaysSince Q (done ++ [i]) t is

/-- Every step that is tried satisfies `P`, the one that fails included. -/
def Tried (P : σ → ι → Prop) : σ → List ι → Prop
  | _, [] => True
  | s, i :: is => P s i ∧ ∀ t, next s i = .ok t → Tried P t is

/-- No step that is tried fails with `bad`. -/
def Avoids (bad : ε) : σ → List ι → Prop
  | _, [] => True
  | s, i :: is => next s i ≠ .error bad ∧ ∀ t, next s i = .ok t → Avoids bad t is

/-- How many of the steps that are taken satisfy `p`. -/
def countSteps (p : σ → ι → Bool) : σ → List ι → Nat
  | _, [] => 0
  | s, i :: is =>
    match next s i with
    | .ok t => (p s i).toNat + countSteps p t is
    | .error _ => 0

variable {next} {R R' : σ → ι → σ → Prop} {Q I : σ → Prop}

instance instDecidableAlong [∀ s i t, Decidable (R s i t)] (s : σ) (is : List ι) :
    Decidable (Along next R s is) :=
  match is with
  | [] => .isTrue trivial
  | i :: is =>
    match hi : next s i with
    | .error _ => .isTrue fun _ ht => nomatch hi.symm.trans ht
    | .ok t =>
      have := instDecidableAlong t is
      decidable_of_iff (R s i t ∧ Along next R t is)
        ⟨fun h _ ht => Except.ok.inj (hi.symm.trans ht) ▸ h, fun h => h t hi⟩

theorem along_imp (h : ∀ s i t, next s i = .ok t → R s i t → R' s i t) {is : List ι}
    (hr : Along next R s is) : Along next R' s is := by
  induction is generalizing s with
  | nil => trivial
  | cons i is ih => exact fun t ht => ⟨h s i t ht (hr t ht).1, ih (hr t ht).2⟩

theorem along_of_all {P : ι → Prop} {is : List ι} (hall : ∀ i ∈ is, P i)
    (hr : Along next R s is) : Along next (fun s i t => P i ∧ R s i t) s is := by
  induction is generalizing s with
  | nil => trivial
  | cons i is ih =>
    intro t ht
    exact ⟨⟨hall i List.mem_cons_self, (hr t ht).1⟩,
      ih (fun j hj => hall j (List.mem_cons_of_mem i hj)) (hr t ht).2⟩

theorem along_of_along (hstep : ∀ s i t, next s i = .ok t → I s → R s i t → I t)
    (hR : ∀ s i t, next s i = .ok t → I s → R s i t → R' s i t) (hs : I s) {is : List ι}
    (hr : Along next R s is) : Along next R' s is := by
  induction is generalizing s with
  | nil => trivial
  | cons i is ih =>
    intro t ht
    exact ⟨hR s i t ht hs (hr t ht).1, ih (hstep s i t ht hs (hr t ht).1) (hr t ht).2⟩

theorem always_of_along (hstep : ∀ s i t, next s i = .ok t → I s → R s i t → I t)
    (hQ : ∀ s, I s → Q s) (hs : I s) {is : List ι} (hr : Along next R s is) :
    Always next Q s is := by
  induction is generalizing s with
  | nil => exact hQ s hs
  | cons i is ih =>
    exact ⟨hQ s hs, fun t ht => ih (hstep s i t ht hs (hr t ht).1) (hr t ht).2⟩

theorem along_of_always (h : ∀ s i t, next s i = .ok t → Q t → R s i t) {is : List ι}
    (ha : Always next Q s is) : Along next R s is := by
  induction is generalizing s with
  | nil => trivial
  | cons i is ih =>
    intro t ht
    have hrest := ha.2 t ht
    refine ⟨h s i t ht ?_, ih hrest⟩
    cases is with
    | nil => exact hrest
    | cons _ _ => exact hrest.1

theorem Always.last {is : List ι} (ha : Always next Q s is) (ht : is.foldlM next s = .ok t) :
    Q t := by
  induction is generalizing s with
  | nil =>
    have hst : s = t := Except.ok.inj ht
    exact hst ▸ ha
  | cons i is ih =>
    rw [List.foldlM_cons] at ht
    cases hi : next s i with
    | error e =>
      rw [hi] at ht
      cases ht
    | ok v =>
      rw [hi] at ht
      exact ih (ha.2 v hi) ht

theorem Along.last {is : List ι} (ha : Along next R s (is ++ [i])) (ht : is.foldlM next s = .ok t)
    (hu : (is ++ [i]).foldlM next s = .ok u) : R t i u := by
  induction is generalizing s with
  | nil =>
    have hst : s = t := Except.ok.inj ht
    subst hst
    rw [List.nil_append, List.foldlM_cons] at hu
    cases hi : next s i with
    | error e =>
      rw [hi] at hu
      cases hu
    | ok v =>
      rw [hi] at hu
      have hvu : v = u := Except.ok.inj hu
      exact hvu ▸ (ha v hi).1
  | cons j js ih =>
    rw [List.foldlM_cons] at ht
    rw [List.cons_append, List.foldlM_cons] at hu
    cases hj : next s j with
    | error e =>
      rw [hj] at ht
      cases ht
    | ok v =>
      rw [hj] at ht hu
      exact ih (ha v hj).2 ht hu

theorem alwaysSince_of_along {J Q : List ι → σ → Prop}
    (hstep : ∀ done s i t, next s i = .ok t → J done s → R s i t → J (done ++ [i]) t)
    (hQ : ∀ done s, J done s → Q done s) {done : List ι} (hs : J done s) {is : List ι}
    (hr : Along next R s is) : AlwaysSince next Q done s is := by
  induction is generalizing s done with
  | nil => exact hQ done s hs
  | cons i is ih =>
    exact ⟨hQ done s hs, fun t ht => ih (hstep done s i t ht hs (hr t ht).1) (hr t ht).2⟩

theorem avoids_of_along {bad : ε} (hstep : ∀ s i t, next s i = .ok t → I s → R s i t → I t)
    (hsafe : ∀ s i, I s → next s i ≠ .error bad) (hs : I s) {is : List ι}
    (hr : Along next R s is) : Avoids next bad s is := by
  induction is generalizing s with
  | nil => trivial
  | cons i is ih =>
    exact ⟨hsafe s i hs, fun t ht => ih (hstep s i t ht hs (hr t ht).1) (hr t ht).2⟩

theorem tried_iff_of_invariant {P P' : σ → ι → Prop}
    (hstep : ∀ s i t, next s i = .ok t → I s → I t) (hP : ∀ s i, I s → (P s i ↔ P' s i))
    (hs : I s) (is : List ι) : Tried next P s is ↔ Tried next P' s is := by
  induction is generalizing s with
  | nil => exact Iff.rfl
  | cons i is ih =>
    exact and_congr (hP s i hs) (forall₂_congr fun t ht => ih (hstep s i t ht hs))

theorem tried_of_invariant {P : σ → ι → Prop} (hstep : ∀ s i t, next s i = .ok t → I s → I t)
    (hP : ∀ s i, I s → P s i) (hs : I s) (is : List ι) : Tried next P s is := by
  induction is generalizing s with
  | nil => trivial
  | cons i is ih => exact ⟨hP s i hs, fun t ht => ih (hstep s i t ht hs)⟩

theorem Tried.last {P : σ → ι → Prop} {is : List ι} (h : Tried next P s (is ++ [i]))
    (ht : is.foldlM next s = .ok t) : P t i := by
  induction is generalizing s with
  | nil =>
    have hst : s = t := Except.ok.inj ht
    exact hst ▸ h.1
  | cons j js ih =>
    rw [List.foldlM_cons] at ht
    cases hj : next s j with
    | error e =>
      rw [hj] at ht
      cases ht
    | ok v =>
      rw [hj] at ht
      exact ih (h.2 v hj) ht

/-- Steps that lower a rank are few. -/
theorem countSteps_le {p : σ → ι → Bool} (rank : σ → Nat)
    (hstep : ∀ s i t, next s i = .ok t → I s → I t ∧ (p s i).toNat + rank t ≤ rank s) (hs : I s)
    {is : List ι} (ht : is.foldlM next s = .ok t) : countSteps next p s is + rank t ≤ rank s := by
  induction is generalizing s with
  | nil =>
    have hst : s = t := Except.ok.inj ht
    subst hst
    exact Nat.le_of_eq (Nat.zero_add _)
  | cons i is ih =>
    rw [List.foldlM_cons] at ht
    cases hi : next s i with
    | error e =>
      rw [hi] at ht
      cases ht
    | ok v =>
      rw [hi] at ht
      obtain ⟨hv, hless⟩ := hstep s i v hi hs
      have hrest := ih hv ht
      simp only [countSteps, hi]
      omega

theorem Avoids.run {bad : ε} {is : List ι} (h : Avoids next bad s is) :
    is.foldlM next s ≠ .error bad := by
  induction is generalizing s with
  | nil =>
    intro hrun
    cases hrun
  | cons i is ih =>
    rw [List.foldlM_cons]
    cases hi : next s i with
    | error e =>
      intro hrun
      exact h.1 (hi.trans (congrArg Except.error (Except.error.inj hrun)))
    | ok v => exact ih (h.2 v hi)

theorem AlwaysSince.last {Q : List ι → σ → Prop} {done is : List ι}
    (ha : AlwaysSince next Q done s is) (ht : is.foldlM next s = .ok t) : Q (done ++ is) t := by
  induction is generalizing s done with
  | nil =>
    have hst : s = t := Except.ok.inj ht
    rw [List.append_nil]
    exact hst ▸ ha
  | cons i is ih =>
    rw [List.foldlM_cons] at ht
    cases hi : next s i with
    | error e =>
      rw [hi] at ht
      cases ht
    | ok v =>
      rw [hi] at ht
      have hlast := ih (ha.2 v hi) ht
      rwa [List.append_assoc, List.singleton_append] at hlast

/-- The states some run leads to. -/
inductive Reached (next : σ → ι → Except ε σ) (s₀ : σ) : σ → Prop
  | start : Reached next s₀ s₀
  | step {a b : σ} {i : ι} : Reached next s₀ a → next a i = .ok b → Reached next s₀ b

theorem Reached.invariant {s₀ : σ} (hs : I s₀) (hstep : ∀ s i t, next s i = .ok t → I s → I t)
    (h : Reached next s₀ t) : I t := by
  induction h with
  | start => exact hs
  | step _ ht ih => exact hstep _ _ _ ht ih

theorem reached_of_foldlM {s₀ : σ} {is : List ι} (hs : Reached next s₀ s)
    (ht : is.foldlM next s = .ok t) : Reached next s₀ t := by
  induction is generalizing s with
  | nil =>
    have hst : s = t := Except.ok.inj ht
    exact hst ▸ hs
  | cons i is ih =>
    rw [List.foldlM_cons] at ht
    cases hi : next s i with
    | error e =>
      rw [hi] at ht
      cases ht
    | ok v =>
      rw [hi] at ht
      exact ih (.step hs hi) ht

theorem Reached.run {s₀ : σ} (h : Reached next s₀ t) :
    ∃ is : List ι, is.foldlM next s₀ = .ok t := by
  induction h with
  | start => exact ⟨[], rfl⟩
  | @step a b i _ ht ih =>
    obtain ⟨is, his⟩ := ih
    refine ⟨is ++ [i], ?_⟩
    rw [List.foldlM_append, his]
    exact (bind_pure (next a i)).trans ht

theorem always_of_invariant (hs : I s) (hstep : ∀ s i t, next s i = .ok t → I s → I t)
    (hQ : ∀ s, I s → Q s) (is : List ι) : Always next Q s is := by
  induction is generalizing s with
  | nil => exact hQ s hs
  | cons i is ih => exact ⟨hQ s hs, fun t ht => ih (hstep s i t ht hs)⟩

theorem along_of_invariant (hs : I s) (hstep : ∀ s i t, next s i = .ok t → I s → I t)
    (hR : ∀ s i t, next s i = .ok t → I s → R s i t) (is : List ι) : Along next R s is := by
  induction is generalizing s with
  | nil => trivial
  | cons i is ih => exact fun t ht => ⟨hR s i t ht hs, ih (hstep s i t ht hs)⟩

end

end Lib.Run
