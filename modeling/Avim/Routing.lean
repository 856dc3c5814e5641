import Avim.Avif
import Avim.Lib.Run
import Avim.Lib.Sort

/-!
# Interfaces and routes

`m_avifs` and `m_routes` with the operations that change them. Routes are
sorted by metric when one is added and name interfaces that are registered,
so the first match is a best match and `m_avifs.at` finds it:
`Routing.run_integrity`.

Interfaces are registered, looked up and removed under whatever `get_ifname`
answers at that moment. For an interface whose answers agree that is one name
(`identity_of_stable`); for an `avjackif` they never do (`not_identity_avjack`).
-/

namespace Avim

open Lib.Octets Lib.Sort

/-- Boost.Regex: which pattern texts compile, and what they match as a whole. -/
structure Regex where
  valid : Bytes → Bool
  fullMatch : Bytes → Bytes → Bool

/-- `pattern` is the text the regular expression was compiled from. -/
structure RouteItem where
  pattern : Bytes
  gateway : Bytes
  ifname : Bytes
  metric : Int
  deriving DecidableEq, Repr

structure Routing where
  avifs : Std.ExtTreeMap Bytes Avif
  routes : List RouteItem
  -- how many elements were erased under a name: what is inserted there next is
  -- another element, whatever it holds
  generation : Bytes → Nat

/-- An `avif *` into `m_avifs`: the element of that generation under `name`. -/
structure AvifPtr where
  name : Bytes
  generation : Nat
  avif : Avif
  deriving DecidableEq, Repr

inductive RouteResult
  | added
  | refused
  -- the pattern does not compile: `boost::regex_error`
  | threw
  deriving DecidableEq, Repr

namespace Routing

def empty : Routing := ⟨∅, [], fun _ => 0⟩

variable (regex : Regex) (std : StdSort)

/-- `avkernel::add_interface` without the coroutines it starts: a name for the
log, one to insert under and one to look up. -/
def addInterface (r : Routing) (t : Nat) (avif : Avif) : Routing × Nat × Bool :=
  let (_, t) := getIfname avif.ifname t
  let (name, t) := getIfname avif.ifname t
  let avifs := r.avifs.insertIfNew name avif
  let (found, t) := getIfname avif.ifname t
  ({ r with avifs := avifs }, t, found ∈ avifs)

/-- The assertion in front of the test is compiled out. -/
def addRoute (r : Routing) (targetAddress gateway ifname : Bytes) (metric : Int) :
    Routing × RouteResult :=
  if ifname ∈ r.avifs then
    if regex.valid targetAddress then
      let routes := r.routes ++ [⟨targetAddress, gateway, ifname, metric⟩]
      ({ r with routes := std.sort RouteItem.metric routes }, .added)
    else (r, .threw)
  else (r, .refused)

/-- `while (find_if(…) != end) erase`: at most one round a route. -/
def eraseRoutes (avifname : Bytes) : Nat → List RouteItem → List RouteItem
  | 0, routes => routes
  | fuel + 1, routes =>
    if routes.any (·.ifname == avifname) then
      eraseRoutes avifname fuel (routes.eraseP (·.ifname == avifname))
    else routes

def removeInterface (r : Routing) (avifname : Bytes) : Routing where
  avifs := r.avifs.erase avifname
  routes := eraseRoutes avifname (r.routes.length + 1) r.routes
  generation := Function.update r.generation avifname (r.generation avifname + 1)

def selectRoute (r : Routing) (address : Bytes) : Except Fault (Option AvifPtr) :=
  match r.routes.find? (regex.fullMatch ·.pattern address) with
  | none => .ok none
  | some route =>
    match r.avifs[route.ifname]? with
    | some avif => .ok (some ⟨route.ifname, r.generation route.ifname, avif⟩)
    | none => .error .outOfRange

/-- Using the pointer. It is lost for good when its element is erased. -/
def deref (r : Routing) (p : AvifPtr) : Except Fault Avif :=
  if r.avifs[p.name]? = some p.avif ∧ r.generation p.name = p.generation then .ok p.avif
  else .error .dangling

end Routing

inductive RoutingOp
  | addInterface (avif : Avif)
  | addRoute (targetAddress gateway ifname : Bytes) (metric : Int)
  | removeInterface (avifname : Bytes)
  deriving DecidableEq, Repr

section

variable (regex : Regex) (std : StdSort)

def Routing.apply (s : Routing × Nat) : RoutingOp → (Routing × Nat) × List RouteResult
  | .addInterface avif =>
    let (r, t, ok) := s.1.addInterface s.2 avif
    ((r, t), [if ok then .added else .refused])
  | .addRoute targetAddress gateway ifname metric =>
    let (r, result) := s.1.addRoute regex std targetAddress gateway ifname metric
    ((r, s.2), [result])
  | .removeInterface avifname => ((s.1.removeInterface avifname, s.2), [])

def Routing.run (t : Nat) (ops : List RoutingOp) : Routing :=
  (Lib.Run.trace (Routing.apply regex std) (.empty, t) ops).1.1

structure Routing.WellFormed (r : Routing) : Prop where
  registered : ∀ route ∈ r.routes, route.ifname ∈ r.avifs
  ordered : r.routes.Pairwise fun a b => a.metric ≤ b.metric

end

-- ---------------------------------------------------------------------------
-- One operation
-- ---------------------------------------------------------------------------

section

variable {regex : Regex} {std : StdSort} {r : Routing}

theorem filter_eraseP (p : α → Bool) (xs : List α) :
    (xs.eraseP p).filter (!p ·) = xs.filter (!p ·) := by
  induction xs with
  | nil => rfl
  | cons x xs ih =>
    by_cases hx : p x = true
    · simp [hx]
    · simp [hx, ih]

theorem Routing.eraseRoutes_eq (avifname : Bytes) {routes : List RouteItem}
    (h : routes.length ≤ fuel) :
    eraseRoutes avifname fuel routes = routes.filter (!·.ifname == avifname) := by
  induction fuel generalizing routes with
  | zero =>
    have : routes = [] := List.length_eq_zero_iff.mp (by omega)
    simp [eraseRoutes, this]
  | succ fuel ih =>
    rw [eraseRoutes]
    split
    · rename_i hany
      obtain ⟨route, hmem, hroute⟩ := List.any_eq_true.mp hany
      have hlen := List.length_eraseP_of_mem (p := (·.ifname == avifname)) hmem hroute
      rw [ih (by omega), filter_eraseP fun route : RouteItem => route.ifname == avifname]
    · rename_i hany
      refine (List.filter_eq_self.mpr fun route hmem => ?_).symm
      simp only [List.any_eq_true, not_exists, not_and] at hany
      simpa using hany route hmem

theorem Routing.removeInterface_routes (r : Routing) (avifname : Bytes) :
    (r.removeInterface avifname).routes = r.routes.filter (!·.ifname == avifname) :=
  eraseRoutes_eq avifname (by omega)

theorem Routing.WellFormed.addInterface (h : r.WellFormed) (t : Nat) (avif : Avif) :
    (r.addInterface t avif).1.WellFormed := by
  refine ⟨fun route hmem => ?_, h.ordered⟩
  have := h.registered route hmem
  simp only [Routing.addInterface, Std.ExtTreeMap.mem_insertIfNew]
  exact .inr this

theorem Routing.addRoute_cases (regex : Regex) (std : StdSort) (r : Routing)
    (targetAddress gateway ifname : Bytes) (metric : Int) :
    (ifname ∈ r.avifs ∧ regex.valid targetAddress = true ∧
      r.addRoute regex std targetAddress gateway ifname metric =
        ({ r with
          routes := std.sort RouteItem.metric
            (r.routes ++ [⟨targetAddress, gateway, ifname, metric⟩]) }, .added)) ∨
    (ifname ∈ r.avifs ∧ regex.valid targetAddress = false ∧
      r.addRoute regex std targetAddress gateway ifname metric = (r, .threw)) ∨
    (ifname ∉ r.avifs ∧
      r.addRoute regex std targetAddress gateway ifname metric = (r, .refused)) := by
  by_cases hif : ifname ∈ r.avifs
  · cases hvalid : regex.valid targetAddress with
    | true => exact .inl ⟨hif, rfl, by simp [Routing.addRoute, hif, hvalid]⟩
    | false => exact .inr (.inl ⟨hif, rfl, by simp [Routing.addRoute, hif, hvalid]⟩)
  · exact .inr (.inr ⟨hif, by simp [Routing.addRoute, hif]⟩)

theorem Routing.WellFormed.addRoute (h : r.WellFormed) (targetAddress gateway ifname : Bytes)
    (metric : Int) :
    (r.addRoute regex std targetAddress gateway ifname metric).1.WellFormed := by
  obtain ⟨hif, -, heq⟩ | ⟨-, -, heq⟩ | ⟨-, heq⟩ := addRoute_cases regex std r
    targetAddress gateway ifname metric
  · rw [heq]
    refine ⟨fun route hmem => ?_, std.sorted _ _⟩
    rcases List.mem_append.mp ((std.perm _ _).mem_iff.mp hmem) with hmem | hmem
    · exact h.registered route hmem
    · rw [List.mem_singleton.mp hmem]
      exact hif
  · rw [heq]
    exact h
  · rw [heq]
    exact h

theorem Routing.WellFormed.removeInterface (h : r.WellFormed) (avifname : Bytes) :
    (r.removeInterface avifname).WellFormed := by
  constructor
  · intro route hmem
    rw [Routing.removeInterface_routes, List.mem_filter] at hmem
    have hne : route.ifname ≠ avifname := by simpa using hmem.2
    simp only [Routing.removeInterface, Std.ExtTreeMap.mem_erase]
    exact ⟨by simpa [compare_eq_iff_eq] using hne.symm, h.registered route hmem.1⟩
  · rw [Routing.removeInterface_routes]
    exact h.ordered.filter _

theorem Routing.selectRoute_generation (h : r.selectRoute regex address = .ok (some p)) :
    r.generation p.name = p.generation := by
  unfold Routing.selectRoute at h
  split at h
  · cases h
  · split at h
    · cases h
      rfl
    · cases h

theorem Routing.generation_removeInterface_of_ne {name : Bytes} (hne : name ≠ avifname) :
    (r.removeInterface avifname).generation name = r.generation name :=
  Function.update_of_ne hne _ _

theorem Routing.generation_removeInterface (r : Routing) (avifname name : Bytes) :
    r.generation name ≤ (r.removeInterface avifname).generation name ∧
      r.generation avifname < (r.removeInterface avifname).generation avifname := by
  refine ⟨?_, by simp [Routing.removeInterface]⟩
  by_cases hname : name = avifname
  · simp [Routing.removeInterface, hname]
  · rw [generation_removeInterface_of_ne hname]

theorem Routing.getElem?_removeInterface_of_ne (hne : name ≠ avifname) :
    (r.removeInterface avifname).avifs[name]? = r.avifs[name]? := by
  simp [Routing.removeInterface, Std.ExtTreeMap.getElem?_erase, Ne.symm hne]

theorem Routing.getElem?_addInterface {name : Bytes} (h : r.avifs[name]? = some avif) (t : Nat)
    (other : Avif) :
    (r.addInterface t other).1.avifs[name]? = some avif := by
  have hmem : name ∈ r.avifs := by
    rw [Std.ExtTreeMap.mem_iff_isSome_getElem?, h]
    rfl
  simp only [Routing.addInterface, Std.ExtTreeMap.getElem?_insertIfNew]
  rw [if_neg ?_, h]
  rintro ⟨heq, hfree⟩
  rw [Std.LawfulEqCmp.eq_of_compare heq] at hfree
  exact hfree hmem

theorem Routing.addRoute_avifs (regex : Regex) (std : StdSort) (r : Routing)
    (targetAddress gateway ifname : Bytes) (metric : Int) :
    (r.addRoute regex std targetAddress gateway ifname metric).1.avifs = r.avifs ∧
      (r.addRoute regex std targetAddress gateway ifname metric).1.generation = r.generation ∧
      ∀ route ∈ r.routes,
        route ∈ (r.addRoute regex std targetAddress gateway ifname metric).1.routes := by
  obtain ⟨-, -, heq⟩ | ⟨-, -, heq⟩ | ⟨-, heq⟩ := addRoute_cases regex std r
    targetAddress gateway ifname metric
  · rw [heq]
    refine ⟨rfl, rfl, fun route hmem => (std.perm _ _).mem_iff.mpr ?_⟩
    exact List.mem_append_left _ hmem
  · rw [heq]
    exact ⟨rfl, rfl, fun _ hmem => hmem⟩
  · rw [heq]
    exact ⟨rfl, rfl, fun _ hmem => hmem⟩

theorem Routing.WellFormed.apply {s : Routing × Nat} (h : s.1.WellFormed) (op : RoutingOp) :
    (Routing.apply regex std s op).1.1.WellFormed := by
  cases op with
  | addInterface avif => exact h.addInterface s.2 avif
  | addRoute targetAddress gateway ifname metric =>
    exact h.addRoute targetAddress gateway ifname metric
  | removeInterface avifname => exact h.removeInterface avifname

theorem Routing.generation_apply (s : Routing × Nat) (op : RoutingOp) (name : Bytes) :
    s.1.generation name ≤ (Routing.apply regex std s op).1.1.generation name := by
  cases op with
  | addInterface avif => exact le_rfl
  | addRoute targetAddress gateway ifname metric =>
    have hsame := (addRoute_avifs regex std s.1 targetAddress gateway ifname metric).2.1
    exact (congrFun hsame name).ge
  | removeInterface avifname => exact (generation_removeInterface s.1 avifname name).1

theorem Routing.WellFormed.selectRoute (h : r.WellFormed) (address : Bytes) :
    ∃ found, r.selectRoute regex address = .ok found ∧
      (found = none ↔ ∀ route ∈ r.routes, regex.fullMatch route.pattern address = false) ∧
      ∀ p, found = some p → r.avifs[p.name]? = some p.avif ∧ ∃ route ∈ r.routes,
        regex.fullMatch route.pattern address = true ∧ route.ifname = p.name ∧
        ∀ other ∈ r.routes, regex.fullMatch other.pattern address = true →
          route.metric ≤ other.metric := by
  cases hfind : r.routes.find? (regex.fullMatch ·.pattern address) with
  | none =>
    refine ⟨none, by simp [Routing.selectRoute, hfind], ?_, by simp⟩
    simpa using hfind
  | some route =>
    have hmem := List.mem_of_find?_eq_some hfind
    have hmatch : regex.fullMatch route.pattern address = true := by
      simpa using List.find?_some hfind
    obtain ⟨avif, hat⟩ : ∃ avif, r.avifs[route.ifname]? = some avif :=
      Option.isSome_iff_exists.mp (by simpa using h.registered route hmem)
    refine ⟨some ⟨route.ifname, r.generation route.ifname, avif⟩,
      by simp [Routing.selectRoute, hfind, hat], ?_, ?_⟩
    · simp only [reduceCtorEq, false_iff]
      intro hall
      simp [hall route hmem] at hmatch
    · rintro _ ⟨rfl⟩
      exact ⟨hat, route, hmem, hmatch, rfl, Lib.Sort.find?_least h.ordered hfind⟩

-- ---------------------------------------------------------------------------
-- Whole runs
-- ---------------------------------------------------------------------------

theorem Routing.wellFormed_empty : empty.WellFormed := ⟨by simp [empty], by simp [empty]⟩

theorem Routing.wellFormed_run (regex : Regex) (std : StdSort) (t : Nat) (ops : List RoutingOp) :
    (run regex std t ops).WellFormed :=
  Lib.Run.trace_invariant (I := fun s : Routing × Nat => s.1.WellFormed)
    (fun _ op h => h.apply op) wellFormed_empty ops

/-- A pointer whose element was erased is not good again, whatever is done after
it: an equal interface under the same name is another element. -/
theorem Routing.deref_erased (regex : Regex) (std : StdSort) {r : Routing} {p : AvifPtr}
    (h : r.generation p.name = p.generation) (t : Nat) (ops : List RoutingOp) :
    (Lib.Run.trace (Routing.apply regex std) (r.removeInterface p.name, t) ops).1.1.deref p =
      .error .dangling := by
  have hstep : ∀ (s : Routing × Nat) (op : RoutingOp), p.generation < s.1.generation p.name →
      p.generation < (Routing.apply regex std s op).1.1.generation p.name :=
    fun s op hs => hs.trans_le (generation_apply s op p.name)
  have hlost : p.generation < (r.removeInterface p.name).generation p.name := by
    rw [← h]
    exact (generation_removeInterface r p.name p.name).2
  have hlater := Lib.Run.trace_invariant hstep (s := (r.removeInterface p.name, t)) hlost ops
  rw [Routing.deref, if_neg fun hgood => hlater.ne' hgood.2]

/-- In every reachable state the routes name registered interfaces, are in
order of their metrics and are looked up by the least of them, and an
`add_route` that is not accepted changes nothing. -/
theorem Routing.run_integrity (regex : Regex) (std : StdSort) (t : Nat) (ops : List RoutingOp) :
    (∀ route ∈ (run regex std t ops).routes, route.ifname ∈ (run regex std t ops).avifs) ∧
    ((run regex std t ops).routes.Pairwise fun a b => a.metric ≤ b.metric) ∧
    (∀ address, ∃ found, (run regex std t ops).selectRoute regex address = .ok found ∧
      (found = none ↔
        ∀ route ∈ (run regex std t ops).routes, regex.fullMatch route.pattern address = false) ∧
      ∀ p, found = some p → (run regex std t ops).avifs[p.name]? = some p.avif ∧
        ∃ route ∈ (run regex std t ops).routes,
        regex.fullMatch route.pattern address = true ∧ route.ifname = p.name ∧
        ∀ other ∈ (run regex std t ops).routes, regex.fullMatch other.pattern address = true →
          route.metric ≤ other.metric) ∧
    (∀ targetAddress gateway ifname metric,
      ((run regex std t ops).addRoute regex std targetAddress gateway ifname metric).2 = .added ∨
      ((run regex std t ops).addRoute regex std targetAddress gateway ifname metric).1 =
        run regex std t ops) := by
  have h := wellFormed_run regex std t ops
  refine ⟨h.registered, h.ordered, h.selectRoute, fun targetAddress gateway ifname metric => ?_⟩
  obtain ⟨-, -, heq⟩ | ⟨-, -, heq⟩ | ⟨-, heq⟩ :=
    addRoute_cases regex std (run regex std t ops) targetAddress gateway ifname metric
  · exact .inl (by rw [heq])
  · exact .inr (by rw [heq])
  · exact .inr (by rw [heq])

end

-- ---------------------------------------------------------------------------
-- Who an interface is
-- ---------------------------------------------------------------------------

section

variable (regex : Regex) (std : StdSort)

/-- What the five questions for a name need of their answers, `later` being
the number of times any interface was asked in between: the interface is in,
is found, can be routed to, and goes alone. -/
structure Routing.Identity (r : Routing) (t : Nat) (i : Avif) : Prop where
  returns : (r.addInterface t i).2.2 = true
  holds : ∀ later, (r.addInterface t i).1.avifs[
    (getIfname i.ifname ((r.addInterface t i).2.1 + later)).1]? = some i
  routed : ∀ later targetAddress gateway metric, regex.valid targetAddress = true →
    ((r.addInterface t i).1.addRoute regex std targetAddress gateway
      (getIfname i.ifname ((r.addInterface t i).2.1 + later)).1 metric).2 = .added
  removed : ∀ later (name : Bytes), ((r.addInterface t i).1.removeInterface
      (getIfname i.ifname ((r.addInterface t i).2.1 + later)).1).avifs[name]? =
    if (r.addInterface t i).1.avifs[name]? = some i then none
    else (r.addInterface t i).1.avifs[name]?
  unrouted : ∀ later, ((r.addInterface t i).1.removeInterface
      (getIfname i.ifname ((r.addInterface t i).2.1 + later)).1).routes =
    r.routes.filter fun route => (r.addInterface t i).1.avifs[route.ifname]? ≠ some i

variable {regex : Regex} {std : StdSort} {r : Routing}

theorem Routing.identity_of_stable {i : Avif} (hname : i.ifname = .stable name)
    (hfree : name ∉ r.avifs) (hnew : ∀ other : Bytes, r.avifs[other]? ≠ some i) (t : Nat) :
    r.Identity regex std t i := by
  have hadd : r.addInterface t i =
      ({ r with avifs := r.avifs.insertIfNew name i }, t, true) := by
    simp [Routing.addInterface, hname, getIfname]
  have hget : ∀ later, (getIfname i.ifname later).1 = name := fun later => by
    simp [hname, getIfname]
  have hat : ∀ other : Bytes, (r.avifs.insertIfNew name i)[other]? =
      if other = name then some i else r.avifs[other]? := by
    intro other
    by_cases ho : other = name
    · rw [ho, Std.ExtTreeMap.getElem?_insertIfNew]
      simp [hfree]
    · simp [ho, Ne.symm ho, Std.ExtTreeMap.getElem?_insertIfNew]
  refine ⟨?_, fun later => ?_, fun later targetAddress gateway metric hvalid => ?_,
    fun later other => ?_, fun later => ?_⟩
  · rw [hadd]
  · rw [hget, hadd, hat, if_pos rfl]
  · rw [hget, hadd]
    simp [Routing.addRoute, hvalid]
  · simp only [hget, hadd, Routing.removeInterface, hat, Std.ExtTreeMap.getElem?_erase]
    by_cases ho : other = name
    · simp [ho]
    · simp [ho, Ne.symm ho, hnew other]
  · rw [hget, hadd, Routing.removeInterface_routes]
    refine List.filter_congr fun route _ => ?_
    by_cases hr : route.ifname = name
    · rw [hat, if_pos hr]
      simp [hr]
    · rw [hat, if_neg hr]
      simp [hr, hnew]

/-- Two later answers of an `avjackif` differ, so a table that holds it under
both loses only one of them. -/
theorem Routing.not_identity_avjack (regex : Regex) (std : StdSort) (r : Routing) (t id : Nat)
    (ifAddress : AvAddress) (rsaKey : RSAKey) (cert : Bytes) :
    ¬ r.Identity regex std t ⟨id, .avjack, ifAddress, rsaKey, cert⟩ := by
  intro h
  have hfirst := h.holds 0
  have hsecond := h.holds 1
  have hremoved := h.removed 0 (avjackName (t + 4))
  have hne : avjackName (t + 3) ≠ avjackName (t + 4) := avjackName_succ (t + 3)
  simp only [Routing.addInterface, getIfname, Nat.add_zero, Nat.add_assoc, Nat.reduceAdd]
    at hsecond hremoved
  rw [if_pos hsecond] at hremoved
  simp [Routing.removeInterface, Std.ExtTreeMap.getElem?_erase, hne, hsecond] at hremoved

end

def sampleRegex : Regex where
  valid _ := true
  fullMatch pattern address :=
    if pattern = text ".+@.+" then (address.drop 1).dropLast.contains 64 else pattern == address

def sampleIf : Avif where
  id := 1
  ifname := .avjack
  ifAddress := ⟨text "a", text "x", none⟩
  rsaKey := sampleKey
  cert := certificate (text "a@x") sampleKey.toRSA

/-- The very first `add_interface` inserts under `avjack1`, looks `avjack2` up
and reports failure. -/
theorem Routing.not_identity_first :
    (Routing.empty.addInterface 0 sampleIf).2.2 = false ∧
      (Routing.empty.addInterface 0 sampleIf).1.avifs[text "avjack1"]? = some sampleIf ∧
      ¬ Routing.empty.Identity sampleRegex insertion 0 sampleIf := by
  refine ⟨by decide +kernel, by decide +kernel, fun h => ?_⟩
  exact absurd h.returns (by decide +kernel)

end Avim
