import Avim.Lib.Sort
import Avim.Rsa

/-!
# Keys of other addresses

`trusted_pubkey`: for each address text the keys that are known for it, the
one that stays valid longest in front. Times are microseconds.
-/

namespace Avim

open Lib.Octets Lib.Sort

structure AVPubKey where
  rsa : RSA
  validUntil : Int
  deriving DecidableEq, Repr

structure AVdbitem where
  avaddr : Bytes
  keys : List AVPubKey
  deriving DecidableEq, Repr

abbrev KeyStore := Std.ExtTreeMap Bytes AVdbitem

namespace KeyStore

/-- `none` is the null pointer. `front` of an empty vector is not defined. -/
def findRSAPubkey (store : KeyStore) (address : Bytes) : Except Fault (Option RSA) :=
  match store[address]? with
  | none => .ok none
  | some item =>
    match item.keys with
    | [] => .error .outOfBounds
    | key :: _ => .ok (some key.rsa)

def addRSAPubkey (std : StdSort) (store : KeyStore) (address : Bytes) (pubkey : RSA)
    (validUntil : Int) : KeyStore :=
  let keys := ((store[address]?.map AVdbitem.keys).getD []) ++ [⟨pubkey, validUntil⟩]
  -- the comparator is `lhs.valid_until > rhs.valid_until`
  store.insert address ⟨address, std.sort (fun key => -key.validUntil) keys⟩

/-- The loop of `purge_RSA_pubkey` from one position of the map on. Erasing
steps the iterator and so does the loop head, so the entry behind an erased
one is passed over, and behind the last one there is nothing to step to. -/
def purgeLoop (now : Int) : List (Bytes × AVdbitem) → Except Fault (List (Bytes × AVdbitem))
  | [] => .ok []
  | (address, item) :: rest =>
    -- everything from the first expired key on goes
    let keys := item.keys.takeWhile fun key => !(key.validUntil < now)
    if keys.isEmpty then
      match rest with
      | [] => .error .pastEnd
      | skipped :: rest => (purgeLoop now rest).map (skipped :: ·)
    else (purgeLoop now rest).map ((address, { item with keys := keys }) :: ·)

def purgeRSAPubkey (store : KeyStore) (now : Int) : Except Fault KeyStore :=
  (purgeLoop now store.toList).map (Std.ExtTreeMap.ofList ·)

-- ---------------------------------------------------------------------------
-- Adding a key
-- ---------------------------------------------------------------------------

variable {std : StdSort} {store store' : KeyStore}

theorem getElem?_addRSAPubkey (std : StdSort) (store : KeyStore) (address other : Bytes)
    (pubkey : RSA) (validUntil : Int) :
    (store.addRSAPubkey std address pubkey validUntil)[other]? =
      if other = address then some ⟨address, std.sort (fun key => -key.validUntil)
        (((store[address]?.map AVdbitem.keys).getD []) ++ [⟨pubkey, validUntil⟩])⟩
      else store[other]? := by
  simp only [addRSAPubkey, Std.ExtTreeMap.getElem?_insert]
  by_cases ho : other = address
  · simp [ho]
  · simp [ho, Ne.symm ho]

theorem findRSAPubkey_add_of_ne (h : other ≠ address) (pubkey : RSA) (validUntil : Int) :
    (store.addRSAPubkey std address pubkey validUntil).findRSAPubkey other =
      store.findRSAPubkey other := by
  simp [findRSAPubkey, getElem?_addRSAPubkey, h]

theorem sort_append_ne_nil (std : StdSort) (key : α → Int) (xs : List α) (x : α) :
    std.sort key (xs ++ [x]) ≠ [] := by
  intro h
  have hlen := (std.perm key (xs ++ [x])).length_eq
  rw [h] at hlen
  simp at hlen

theorem findRSAPubkey_add_self (std : StdSort) (store : KeyStore) (address : Bytes) (pubkey : RSA)
    (validUntil : Int) :
    ∃ key, (store.addRSAPubkey std address pubkey validUntil).findRSAPubkey address =
      .ok (some key) := by
  simp only [findRSAPubkey, getElem?_addRSAPubkey, if_true]
  split
  · rename_i hnil
    exact absurd hnil (sort_append_ne_nil std _ _ _)
  · exact ⟨_, rfl⟩

/-- No entry without a key: `find_RSA_pubkey` is defined everywhere. -/
def Filled (store : KeyStore) : Prop :=
  ∀ (address : Bytes) (item : AVdbitem), store[address]? = some item → item.keys ≠ []

theorem filled_empty : Filled ∅ := by
  intro address item h
  simp at h

theorem Filled.add (h : store.Filled) (address : Bytes) (pubkey : RSA) (validUntil : Int) :
    (store.addRSAPubkey std address pubkey validUntil).Filled := by
  intro other item hitem
  rw [getElem?_addRSAPubkey] at hitem
  split at hitem
  · cases hitem
    exact sort_append_ne_nil std _ _ _
  · exact h other item hitem

theorem Filled.find (h : store.Filled) (address : Bytes) :
    ∃ found, store.findRSAPubkey address = .ok found ∧
      (found = none ↔ store[address]? = none) := by
  unfold findRSAPubkey
  cases hitem : store[address]? with
  | none => exact ⟨none, rfl, by simp⟩
  | some item =>
    cases hkeys : item.keys with
    | nil => exact absurd hkeys (h address item hitem)
    | cons key keys => exact ⟨some key.rsa, by simp [hkeys], by simp⟩

theorem Filled.find_add_unknown (h : store.Filled) (hnone : store.findRSAPubkey address = .ok none)
    (std : StdSort) (pubkey : RSA) (validUntil : Int) :
    (store.addRSAPubkey std address pubkey validUntil).findRSAPubkey address =
      .ok (some pubkey) := by
  obtain ⟨found, hfound, hiff⟩ := h.find address
  cases hfound.symm.trans hnone
  have hitem : store[address]? = none := hiff.mp rfl
  have hsort : std.sort (fun key : AVPubKey => -key.validUntil) [⟨pubkey, validUntil⟩] =
      [⟨pubkey, validUntil⟩] := List.perm_singleton.mp (std.perm _ _)
  simp [findRSAPubkey, getElem?_addRSAPubkey, hitem, hsort]

-- ---------------------------------------------------------------------------
-- Purging
-- ---------------------------------------------------------------------------

def unexpired (now : Int) (item : AVdbitem) : List AVPubKey :=
  item.keys.takeWhile fun key => !(key.validUntil < now)

theorem purgeLoop_cases (h : purgeLoop now entries = .ok left) :
    (left.map Prod.fst).Sublist (entries.map Prod.fst) ∧
    (∀ address item, (address, item) ∈ left → ∃ old, (address, old) ∈ entries ∧
      (item = old ∨ unexpired now old ≠ [] ∧ item = { old with keys := unexpired now old })) ∧
    (∀ address old, (address, old) ∈ entries →
      (∃ item, (address, item) ∈ left) ∨ unexpired now old = []) := by
  fun_induction purgeLoop now entries generalizing left with
  | case1 =>
    cases h
    simp
  | case2 => cases h
  | case3 address item keys hempty skipped rest =>
    rename_i ih
    obtain ⟨left, hleft, rfl⟩ := map_returns h
    obtain ⟨hsub, hfrom, hto⟩ := ih hleft
    refine ⟨?_, ?_, ?_⟩
    · exact .cons _ (.cons_cons _ hsub)
    · intro other old hold
      rcases List.mem_cons.mp hold with heq | hold
      · exact ⟨old, by simp [heq], .inl rfl⟩
      · obtain ⟨before, hb, hcase⟩ := hfrom other old hold
        exact ⟨before, by simp [hb], hcase⟩
    · intro other old hold
      rcases List.mem_cons.mp hold with heq | hold
      · cases heq
        exact .inr (List.isEmpty_iff.mp hempty)
      · rcases List.mem_cons.mp hold with heq | hold
        · exact .inl ⟨old, by simp [heq]⟩
        · rcases hto other old hold with ⟨item, hitem⟩ | hnil
          · exact .inl ⟨item, by simp [hitem]⟩
          · exact .inr hnil
  | case4 address item rest keys hsome =>
    rename_i ih
    obtain ⟨left, hleft, rfl⟩ := map_returns h
    obtain ⟨hsub, hfrom, hto⟩ := ih hleft
    have hne : unexpired now item ≠ [] := fun hnil => hsome (List.isEmpty_iff.mpr hnil)
    refine ⟨?_, ?_, ?_⟩
    · exact .cons_cons _ hsub
    · intro other old hold
      rcases List.mem_cons.mp hold with heq | hold
      · cases heq
        exact ⟨item, by simp, .inr ⟨hne, rfl⟩⟩
      · obtain ⟨before, hb, hcase⟩ := hfrom other old hold
        exact ⟨before, by simp [hb], hcase⟩
    · intro other old hold
      rcases List.mem_cons.mp hold with heq | hold
      · cases heq
        exact .inl ⟨_, List.mem_cons_self⟩
      · rcases hto other old hold with ⟨item, hitem⟩ | hnil
        · exact .inl ⟨item, by simp [hitem]⟩
        · exact .inr hnil

theorem getElem?_purged (h : purgeLoop now store.toList = .ok left) (address : Bytes)
    (item : AVdbitem) :
    (Std.ExtTreeMap.ofList left compare)[address]? = some item ↔ (address, item) ∈ left := by
  obtain ⟨hsub, -, -⟩ := purgeLoop_cases h
  have hdistinct : left.Pairwise fun a b => ¬ compare a.1 b.1 = .eq := by
    have hall := Std.ExtTreeMap.distinct_keys_toList (t := store)
    exact List.pairwise_map.mp ((List.pairwise_map
      (R := fun a b => ¬ compare a b = .eq) |>.mpr hall).sublist hsub)
  have hlookup : ∀ found, (address, found) ∈ left →
      (Std.ExtTreeMap.ofList left compare)[address]? = some found := fun found hfound =>
    Std.ExtTreeMap.getElem?_ofList_of_mem Std.ReflCmp.compare_self hdistinct hfound
  refine ⟨fun hitem => ?_, hlookup item⟩
  by_cases hmem : ∃ found, (address, found) ∈ left
  · obtain ⟨found, hfound⟩ := hmem
    have heq := (hlookup found hfound).symm.trans hitem
    cases heq
    exact hfound
  · have hnone : (Std.ExtTreeMap.ofList left compare)[address]? = none := by
      refine Std.ExtTreeMap.getElem?_ofList_of_contains_eq_false ?_
      simpa using fun found hfound => hmem ⟨found, hfound⟩
    rw [hnone] at hitem
    cases hitem

theorem mem_toList_iff (store : KeyStore) (address : Bytes) (item : AVdbitem) :
    (address, item) ∈ store.toList ↔ store[address]? = some item :=
  Std.ExtTreeMap.mem_toList_iff_getElem?_eq_some

theorem purgeRSAPubkey_cases (h : store.purgeRSAPubkey now = .ok store') (address : Bytes) :
    store'[address]? = store[address]? ∨
    ∃ old, store[address]? = some old ∧
      ((unexpired now old ≠ [] ∧
        store'[address]? = some { old with keys := unexpired now old }) ∨
      (unexpired now old = [] ∧ store'[address]? = none)) := by
  obtain ⟨left, hleft, rfl⟩ := map_returns h
  obtain ⟨-, hfrom, hto⟩ := purgeLoop_cases hleft
  have hnew := getElem?_purged hleft address
  cases hitem : (Std.ExtTreeMap.ofList left compare)[address]? with
  | some item =>
    obtain ⟨old, hold, rfl | ⟨hne, rfl⟩⟩ := hfrom address item ((hnew item).mp hitem)
    · exact .inl ((mem_toList_iff store address _).mp hold).symm
    · exact .inr ⟨old, (mem_toList_iff store address old).mp hold, .inl ⟨hne, rfl⟩⟩
  | none =>
    cases hold : store[address]? with
    | none => exact .inl rfl
    | some old =>
      obtain ⟨item, hmem⟩ | hnil := hto address old ((mem_toList_iff store address old).mpr hold)
      · rw [(hnew item).mpr hmem] at hitem
        cases hitem
      · exact .inr ⟨old, rfl, .inr ⟨hnil, rfl⟩⟩

theorem Filled.purge (h : store.Filled) (hpurge : store.purgeRSAPubkey now = .ok store') :
    store'.Filled := by
  intro address item hitem
  obtain heq | ⟨old, -, ⟨hne, hnew⟩ | ⟨-, hnew⟩⟩ := purgeRSAPubkey_cases hpurge address
  · exact h address item (heq ▸ hitem)
  · rw [hnew] at hitem
    cases hitem
    exact hne
  · rw [hnew] at hitem
    cases hitem

/-- A purge changes what is found only by forgetting a key that has expired. -/
theorem findRSAPubkey_purge (hpurge : store.purgeRSAPubkey now = .ok store') (address : Bytes) :
    store'.findRSAPubkey address = store.findRSAPubkey address ∨
    (store'.findRSAPubkey address = .ok none ∧ ∀ item key keys,
      store[address]? = some item → item.keys = key :: keys → key.validUntil < now) := by
  obtain heq | ⟨old, hold, ⟨hne, hnew⟩ | ⟨hnil, hnew⟩⟩ := purgeRSAPubkey_cases hpurge address
  · exact .inl (by rw [findRSAPubkey, findRSAPubkey, heq])
  · refine .inl ?_
    simp only [findRSAPubkey, hnew, hold]
    unfold unexpired at hne ⊢
    cases hkeys : old.keys with
    | nil => simp
    | cons key keys =>
      rw [hkeys] at hne
      by_cases hexpired : key.validUntil < now
      · simp [hexpired] at hne
      · simp [hexpired]
  · refine .inr ⟨by simp [findRSAPubkey, hnew], ?_⟩
    intro item key keys hitem hkeys
    rw [hold] at hitem
    cases hitem
    unfold unexpired at hnil
    rw [hkeys] at hnil
    by_contra hvalid
    simp [hvalid] at hnil

end KeyStore

end Avim
