import Avim.Moves

/-!
# The life of the key store

What holds of `trusted_pubkey` after any sequence of additions and of purges
that return: the keys of an address stand in order of their validity, and they
are those that were added and have not been purged. A purge does what its name
says exactly when no entry that it erases is the last of the map or is followed
by one that has something to purge.
-/

namespace Avim.KeyStore

open Lib.Octets Lib.Sort

/-- The keys of one address, none where there is no entry. -/
def keysOf (store : KeyStore) (address : Bytes) : List AVPubKey :=
  (store[address]?.map AVdbitem.keys).getD []

/-- Additions and purges from an empty store on, with the keys that were added
and those that purges took away, by address. -/
inductive History (std : StdSort) :
    KeyStore → (Bytes → Multiset AVPubKey) → (Bytes → Multiset AVPubKey) → Prop
  | empty : History std ∅ (fun _ => 0) (fun _ => 0)
  | add (address : Bytes) (pubkey : RSA) (validUntil : Int) : History std store added purged →
      History std (store.addRSAPubkey std address pubkey validUntil)
        (Function.update added address (⟨pubkey, validUntil⟩ ::ₘ added address)) purged
  | purge : store.purgeRSAPubkey now = .ok store' → History std store added purged →
      History std store' added
        (fun address => purged address + (↑(keysOf store address) - ↑(keysOf store' address)))

variable {std : StdSort} {store store' : KeyStore} {now : Int}

-- ---------------------------------------------------------------------------
-- The order of the keys
-- ---------------------------------------------------------------------------

def Descending (keys : List AVPubKey) : Prop :=
  keys.Pairwise fun a b => b.validUntil ≤ a.validUntil

/-- The representation: no entry without keys, each in order and under its own
address. -/
structure Sound (store : KeyStore) : Prop where
  filled : store.Filled
  descending : ∀ (address : Bytes) (item : AVdbitem), store[address]? = some item →
    Descending item.keys
  owned : ∀ (address : Bytes) (item : AVdbitem), store[address]? = some item →
    item.avaddr = address

theorem sound_empty : Sound ∅ :=
  ⟨filled_empty, fun _ _ h => by simp at h, fun _ _ h => by simp at h⟩

theorem descending_sort (std : StdSort) (keys : List AVPubKey) :
    Descending (std.sort (fun key => -key.validUntil) keys) := by
  refine (std.sorted (fun key : AVPubKey => -key.validUntil) keys).imp ?_
  intro a b h
  omega

theorem Sound.add (h : store.Sound) (address : Bytes) (pubkey : RSA) (validUntil : Int) :
    (store.addRSAPubkey std address pubkey validUntil).Sound := by
  refine ⟨h.filled.add address pubkey validUntil, ?_, ?_⟩
  · intro other item hitem
    rw [getElem?_addRSAPubkey] at hitem
    split at hitem
    · cases hitem
      exact descending_sort std _
    · exact h.descending other item hitem
  · intro other item hitem
    rw [getElem?_addRSAPubkey] at hitem
    split at hitem
    · rename_i heq
      cases hitem
      exact heq.symm
    · exact h.owned other item hitem

theorem purged_entry {address : Bytes} {item : AVdbitem}
    (hpurge : store.purgeRSAPubkey now = .ok store') (hitem : store'[address]? = some item) :
    ∃ old, store[address]? = some old ∧ item.avaddr = old.avaddr ∧ item.keys <+: old.keys := by
  obtain heq | ⟨old, hold, ⟨-, hnew⟩ | ⟨-, hnew⟩⟩ := purgeRSAPubkey_cases hpurge address
  · exact ⟨item, heq ▸ hitem, rfl, List.prefix_rfl⟩
  · rw [hnew] at hitem
    cases hitem
    exact ⟨old, hold, rfl, List.takeWhile_prefix _⟩
  · rw [hnew] at hitem
    cases hitem

theorem Sound.purge (h : store.Sound) (hpurge : store.purgeRSAPubkey now = .ok store') :
    store'.Sound := by
  refine ⟨h.filled.purge hpurge, ?_, ?_⟩
  · intro address item hitem
    obtain ⟨old, hold, -, hkeys⟩ := purged_entry hpurge hitem
    exact (h.descending address old hold).sublist hkeys.sublist
  · intro address item hitem
    obtain ⟨old, hold, havaddr, -⟩ := purged_entry hpurge hitem
    exact havaddr.trans (h.owned address old hold)

theorem History.sound (h : History std store added purged) : store.Sound := by
  induction h with
  | empty => exact sound_empty
  | add address pubkey validUntil _ ih => exact ih.add address pubkey validUntil
  | purge hpurge _ ih => exact ih.purge hpurge

-- ---------------------------------------------------------------------------
-- Added and not purged
-- ---------------------------------------------------------------------------

theorem keysOf_add (std : StdSort) (store : KeyStore) (address other : Bytes) (pubkey : RSA)
    (validUntil : Int) :
    (keysOf (store.addRSAPubkey std address pubkey validUntil) other).Perm
      (if other = address then ⟨pubkey, validUntil⟩ :: keysOf store address
        else keysOf store other) := by
  unfold keysOf
  rw [getElem?_addRSAPubkey]
  by_cases ho : other = address
  · simp only [ho, if_true, Option.map_some, Option.getD_some]
    exact (std.perm _ _).trans (List.perm_append_singleton _ _)
  · simp [ho]

theorem keysOf_purge (hpurge : store.purgeRSAPubkey now = .ok store') (address : Bytes) :
    keysOf store' address <+: keysOf store address := by
  unfold keysOf
  cases hitem : store'[address]? with
  | none => simp
  | some item =>
    obtain ⟨old, hold, -, hkeys⟩ := purged_entry hpurge hitem
    simpa [hold] using hkeys

theorem History.balance (h : History std store added purged) (address : Bytes) :
    added address - purged address = ↑(keysOf store address) ∧
      purged address ≤ added address := by
  induction h with
  | empty => simp [keysOf]
  | @add store added purged other pubkey validUntil _ ih =>
    obtain ⟨hsub, hle⟩ := ih
    have hperm := Multiset.coe_eq_coe.mpr (keysOf_add std store other address pubkey validUntil)
    rw [hperm]
    by_cases ho : address = other
    · subst ho
      rw [Function.update_self, if_pos rfl]
      refine ⟨?_, hle.trans (Multiset.le_cons_self _ _)⟩
      rw [← Multiset.cons_coe, ← hsub, ← Multiset.singleton_add, ← Multiset.singleton_add,
        Multiset.add_sub_assoc hle]
    · rw [Function.update_of_ne ho, if_neg ho]
      exact ⟨hsub, hle⟩
  | @purge store added purged store' now hpurge _ ih =>
    obtain ⟨hsub, hle⟩ := ih
    have hkept : (↑(keysOf store' address) : Multiset AVPubKey) ≤ ↑(keysOf store address) :=
      Multiset.coe_le.mpr (keysOf_purge hpurge address).sublist.subperm
    refine ⟨?_, ?_⟩
    · rw [← tsub_tsub, hsub]
      exact tsub_tsub_cancel_of_le hkept
    · calc purged address + (↑(keysOf store address) - ↑(keysOf store' address))
          ≤ purged address + ↑(keysOf store address) := add_le_add_right tsub_le_self _
        _ = purged address + (added address - purged address) := by rw [hsub]
        _ = added address := add_tsub_cancel_of_le hle

theorem findRSAPubkey_front (h : store.Sound) (address : Bytes) :
    (store.findRSAPubkey address = .ok none ∧ keysOf store address = []) ∨
    ∃ key ∈ keysOf store address, store.findRSAPubkey address = .ok (some key.rsa) ∧
      ∀ other ∈ keysOf store address, other.validUntil ≤ key.validUntil := by
  unfold findRSAPubkey keysOf
  cases hitem : store[address]? with
  | none => exact .inl ⟨rfl, rfl⟩
  | some item =>
    have hdescending := h.descending address item hitem
    cases hkeys : item.keys with
    | nil => exact absurd hkeys (h.filled address item hitem)
    | cons key keys =>
      rw [hkeys] at hdescending
      refine .inr ⟨key, by simp [hkeys], by simp [hkeys], ?_⟩
      simpa [hkeys] using (List.pairwise_cons.mp hdescending).1

/-- After any history the representation is sound, the lookup is defined, and
what it returns is valid longest among the keys that were added and not purged. -/
theorem history_lookup (h : History std store added purged) :
    (∀ (address : Bytes) (item : AVdbitem), store[address]? = some item →
      item.keys ≠ [] ∧ Descending item.keys ∧ item.avaddr = address) ∧
    ∀ address,
      (store.findRSAPubkey address = .ok none ∧ added address - purged address = 0) ∨
      ∃ key ∈ added address - purged address, store.findRSAPubkey address = .ok (some key.rsa) ∧
        ∀ other ∈ added address - purged address, other.validUntil ≤ key.validUntil := by
  have hsound := h.sound
  refine ⟨fun address item hitem => ⟨hsound.filled address item hitem,
    hsound.descending address item hitem, hsound.owned address item hitem⟩, fun address => ?_⟩
  rw [(h.balance address).1]
  obtain ⟨hnone, hkeys⟩ | ⟨key, hmem, hfound, hmax⟩ := findRSAPubkey_front hsound address
  · exact .inl ⟨hnone, by simp [hkeys]⟩
  · exact .inr ⟨key, by simpa using hmem, hfound, by simpa using hmax⟩

def twoKeys : KeyStore :=
  (addRSAPubkey insertion ∅ (text "b") ⟨15, 3⟩ 5).addRSAPubkey insertion (text "b") ⟨21, 3⟩ 9

theorem history_lookup_two :
    ∃ key : AVPubKey, twoKeys.findRSAPubkey (text "b") = .ok (some key.rsa) ∧
      9 ≤ key.validUntil := by
  have hhistory : History insertion twoKeys _ _ :=
    .add (text "b") ⟨21, 3⟩ 9 (.add (text "b") ⟨15, 3⟩ 5 .empty)
  obtain ⟨-, hfind⟩ := history_lookup hhistory
  obtain ⟨-, hzero⟩ | ⟨key, -, hfound, hmax⟩ := hfind (text "b")
  · simp at hzero
  · exact ⟨key, hfound, hmax ⟨⟨21, 3⟩, 9⟩ (by simp)⟩

-- ---------------------------------------------------------------------------
-- What a purge removes
-- ---------------------------------------------------------------------------

def kept (now : Int) (item : AVdbitem) : Option AVdbitem :=
  let keys := item.keys.filter fun key => !(key.validUntil < now)
  if keys = [] then none else some { item with keys := keys }

/-- The purge ends well and leaves the keys that have not expired, in order. -/
def PurgesExpired (store : KeyStore) (now : Int) : Prop :=
  ∃ store', store.purgeRSAPubkey now = .ok store' ∧
    ∀ address : Bytes, store'[address]? = store[address]?.bind (kept now)

def AllExpired (now : Int) (item : AVdbitem) : Prop := ∀ key ∈ item.keys, key.validUntil < now

def NoneExpired (now : Int) (item : AVdbitem) : Prop := ∀ key ∈ item.keys, ¬ key.validUntil < now

/-- Every entry that is to go stands before one from which nothing goes. -/
def Spaced (now : Int) : List (Bytes × AVdbitem) → Prop
  | [] => True
  | entry :: rest =>
    (AllExpired now entry.2 → ∃ next ∈ rest.head?, NoneExpired now next.2) ∧ Spaced now rest

theorem unexpired_eq_filter (h : Descending item.keys) :
    unexpired now item = item.keys.filter fun key => !(key.validUntil < now) := by
  unfold unexpired
  generalize item.keys = keys at h
  induction keys with
  | nil => rfl
  | cons key keys ih =>
    obtain ⟨hle, hrest⟩ := List.pairwise_cons.mp h
    by_cases hexpired : key.validUntil < now
    · have hall : ∀ other ∈ keys, ¬ (!decide (other.validUntil < now)) = true := by
        intro other hother
        have := hle other hother
        simp
        omega
      simp [hexpired, List.filter_eq_nil_iff.mpr hall]
    · simp [hexpired, ih hrest]

theorem unexpired_eq_nil (h : Descending item.keys) :
    unexpired now item = [] ↔ AllExpired now item := by
  rw [unexpired_eq_filter h, List.filter_eq_nil_iff]
  simp [AllExpired]

theorem kept_noneExpired (hne : item.keys ≠ []) (h : NoneExpired now item) :
    kept now item = some item := by
  have hall : item.keys.filter (fun key => !(key.validUntil < now)) = item.keys := by
    rw [List.filter_eq_self]
    simpa [NoneExpired] using h
  simp only [kept, hall, if_neg hne]

theorem not_allExpired (hne : item.keys ≠ []) (h : NoneExpired now item) :
    ¬ AllExpired now item := by
  intro hall
  obtain ⟨key, hkey⟩ := List.exists_mem_of_ne_nil _ hne
  exact h key hkey (hall key hkey)

def SoundEntry (entry : Bytes × AVdbitem) : Prop := entry.2.keys ≠ [] ∧ Descending entry.2.keys

theorem purgeLoop_spaced (hentries : ∀ entry ∈ entries, SoundEntry entry)
    (h : Spaced now entries) :
    purgeLoop now entries =
      .ok (entries.filterMap fun entry => (kept now entry.2).map (entry.1, ·)) := by
  fun_induction purgeLoop now entries with
  | case1 => rfl
  | case2 address item keys hempty =>
    have hall := (unexpired_eq_nil (hentries _ List.mem_cons_self).2).mp
      (List.isEmpty_iff.mp hempty)
    obtain ⟨next, hnext, -⟩ := h.1 hall
    simp at hnext
  | case3 address item keys hempty skipped rest ih =>
    have hentry := hentries _ List.mem_cons_self
    have hskipped := hentries skipped (by simp)
    have hnil : unexpired now item = [] := List.isEmpty_iff.mp hempty
    have hall := (unexpired_eq_nil hentry.2).mp hnil
    obtain ⟨next, hnext, hfresh⟩ := h.1 hall
    obtain rfl : skipped = next := by simpa using hnext
    have hgone : kept now item = none := by
      rw [kept, ← unexpired_eq_filter hentry.2, if_pos hnil]
    rw [ih (fun entry hmem => hentries entry (by simp [hmem])) h.2.2]
    simp [hgone, kept_noneExpired hskipped.1 hfresh, Except.map]
  | case4 address item rest keys hsome ih =>
    have hentry := hentries _ List.mem_cons_self
    have hne : unexpired now item ≠ [] := fun hnil => hsome (List.isEmpty_iff.mpr hnil)
    have hstays : kept now item = some { item with keys := keys } := by
      rw [kept, ← unexpired_eq_filter hentry.2, if_neg hne]
      rfl
    rw [ih (fun entry hmem => hentries entry (by simp [hmem])) h.2]
    simp [hstays, Except.map]

/-- Out of step, the loop runs past the end or passes over an expired key. -/
theorem purgeLoop_not_spaced (hentries : ∀ entry ∈ entries, SoundEntry entry)
    (h : ¬ Spaced now entries) (hleft : purgeLoop now entries = .ok left) :
    ∃ entry ∈ left, ¬ NoneExpired now entry.2 := by
  fun_induction purgeLoop now entries generalizing left with
  | case1 => exact absurd trivial h
  | case2 => cases hleft
  | case3 address item keys hempty skipped rest =>
    rename_i ih
    obtain ⟨later, hlater, rfl⟩ := map_returns hleft
    have hskipped := hentries skipped (by simp)
    by_cases hfresh : NoneExpired now skipped.2
    · have hrest : ¬ Spaced now rest := by
        intro hrest
        refine h ⟨fun _ => ⟨skipped, by simp, hfresh⟩, fun hall => ?_, hrest⟩
        exact absurd hall (not_allExpired hskipped.1 hfresh)
      obtain ⟨entry, hmem, hold⟩ :=
        ih (fun entry hmem => hentries entry (by simp [hmem])) hrest hlater
      exact ⟨entry, by simp [hmem], hold⟩
    · exact ⟨skipped, by simp, hfresh⟩
  | case4 address item rest keys hsome =>
    rename_i ih
    obtain ⟨later, hlater, rfl⟩ := map_returns hleft
    have hentry := hentries _ List.mem_cons_self
    have hrest : ¬ Spaced now rest := by
      intro hrest
      refine h ⟨fun hall => ?_, hrest⟩
      exact absurd (List.isEmpty_iff.mpr ((unexpired_eq_nil hentry.2).mpr hall)) hsome
    obtain ⟨entry, hmem, hold⟩ :=
      ih (fun entry hmem => hentries entry (by simp [hmem])) hrest hlater
    exact ⟨entry, by simp [hmem], hold⟩

theorem Sound.entries (h : store.Sound) : ∀ entry ∈ store.toList, SoundEntry entry := by
  rintro ⟨address, item⟩ hmem
  have hitem := (mem_toList_iff store address item).mp hmem
  exact ⟨h.filled address item hitem, h.descending address item hitem⟩

theorem kept_some (h : kept now old = some item) : NoneExpired now item := by
  unfold kept at h
  simp only [Option.ite_none_left_eq_some, Option.some.injEq] at h
  obtain ⟨-, rfl⟩ := h
  intro key hkey
  simpa using (List.mem_filter.mp hkey).2

/-- The iterator is stepped twice behind an erased entry, so a purge is right
exactly when that second step passes over nothing that should go. -/
theorem purgesExpired_iff (h : History std store added purged) (now : Int) :
    PurgesExpired store now ↔ Spaced now store.toList := by
  have hentries := h.sound.entries
  constructor
  · rintro ⟨store', hpurge, hlookup⟩
    by_contra hnot
    obtain ⟨left, hleft, rfl⟩ := map_returns hpurge
    obtain ⟨⟨address, item⟩, hmem, hexpired⟩ := purgeLoop_not_spaced hentries hnot hleft
    have hnew := (getElem?_purged hleft address item).mpr hmem
    rw [hlookup address] at hnew
    obtain ⟨old, -, hkept⟩ := Option.bind_eq_some_iff.mp hnew
    exact hexpired (kept_some hkept)
  · intro hspaced
    have hleft := purgeLoop_spaced hentries hspaced
    refine ⟨_, by rw [purgeRSAPubkey, hleft]; rfl, fun address => Option.ext fun item => ?_⟩
    rw [getElem?_purged hleft address item, Option.bind_eq_some_iff]
    simp only [List.mem_filterMap, Option.map_eq_some_iff, Prod.mk.injEq, Prod.exists]
    constructor
    · rintro ⟨other, old, hold, new, hkept, rfl, rfl⟩
      exact ⟨old, (mem_toList_iff store other old).mp hold, hkept⟩
    · rintro ⟨old, hold, hkept⟩
      exact ⟨address, old, (mem_toList_iff store address old).mpr hold, item, hkept, rfl, rfl⟩

def pairStore : KeyStore :=
  (addRSAPubkey insertion ∅ (text "a") ⟨15, 3⟩ 5).addRSAPubkey insertion (text "b") ⟨21, 3⟩ 9

theorem purgesExpired_iff_pair : PurgesExpired pairStore 7 := by
  have hentries : pairStore.toList =
      [(text "a", ⟨text "a", [⟨⟨15, 3⟩, 5⟩]⟩), (text "b", ⟨text "b", [⟨⟨21, 3⟩, 9⟩]⟩)] := by
    decide +kernel
  have hhistory : History insertion pairStore _ _ :=
    .add (text "b") ⟨21, 3⟩ 9 (.add (text "a") ⟨15, 3⟩ 5 .empty)
  refine (purgesExpired_iff hhistory 7).mpr ?_
  rw [hentries]
  simp [Spaced, AllExpired, NoneExpired]

/-- One address with one expired key: the iterator goes past the end. -/
theorem purge_last_entry :
    ¬ ∀ (std : StdSort) (store : KeyStore) (added purged : Bytes → Multiset AVPubKey) (now : Int),
      History std store added purged → PurgesExpired store now := by
  intro h
  obtain ⟨store', hpurge, -⟩ := h insertion _ _ _ 7 (.add (text "a") ⟨15, 3⟩ 5 .empty)
  have hfaults : (addRSAPubkey insertion ∅ (text "a") ⟨15, 3⟩ 5).purgeRSAPubkey 7 =
      .error .pastEnd := by
    have hentries : (addRSAPubkey insertion ∅ (text "a") ⟨15, 3⟩ 5).toList =
        [(text "a", ⟨text "a", [⟨⟨15, 3⟩, 5⟩]⟩)] := by
      decide +kernel
    rw [purgeRSAPubkey, hentries]
    rfl
  rw [hfaults] at hpurge
  cases hpurge

end Avim.KeyStore

namespace Avim.Kernel

def KeyHistory (lib : Libs) (k : Kernel) : Prop :=
  ∃ added purged, KeyStore.History lib.std k.trustedPubkey added purged

theorem KeyHistory.move (h : KeyHistory lib k) (hmove : Move lib k k') : KeyHistory lib k' := by
  obtain ⟨added, purged, hhistory⟩ := h
  obtain heq | ⟨address, rsa, until', heq⟩ | ⟨now, hpurge⟩ := hmove.trustedPubkey
  · exact ⟨added, purged, heq ▸ hhistory⟩
  · exact ⟨_, _, heq ▸ hhistory.add address rsa until'⟩
  · exact ⟨_, _, hhistory.purge hpurge⟩

theorem reached_keyHistory (h : Lib.Run.Reached (step lib) initial k) : KeyHistory lib k :=
  h.invariant ⟨_, _, .empty⟩ fun _ _ _ hstep hs =>
    step_keeps (fun _ _ hmove hk => hk.move hmove) hstep hs

end Avim.Kernel
