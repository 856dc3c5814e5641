import Avim.Lib.Regex
import Avim.Rsa

/-!
# Addresses and interfaces

The address texts of `avif.cpp` and the interface object the kernel works
with. An interface is asked for its name again at every use; `avjackif`
answers with a fresh number each time, from one counter for the process.
-/

namespace Avim

open Lib.Octets Lib.Regex

/-- `user@domain/resource`: the first `@`, then the first `/` behind it. A text
without `@` is a user of the default domain. -/
def avAddressFromString (avAddress : Bytes) : AvAddress :=
  match avAddress.dropWhile (· != 64) with
  | [] => ⟨avAddress, text "avplayer.org", none⟩
  | _ :: rest =>
    let username := avAddress.takeWhile (· != 64)
    match rest.dropWhile (· != 47) with
    | [] => ⟨username, rest, none⟩
    | _ :: resource => ⟨username, rest.takeWhile (· != 47), some resource⟩

def avAddressToString (addr : AvAddress) : Bytes :=
  match addr.resource with
  | some resource => addr.username ++ text "@" ++ addr.domain ++ text "/" ++ resource
  | none => addr.username ++ text "@" ++ addr.domain

-- ---------------------------------------------------------------------------
-- The pattern of the source
-- ---------------------------------------------------------------------------

/-- `([^@]*)@([^/]*)(/(.*))?` -/
def addressPattern : Re UInt8 :=
  .seq (.group 1 (.star (· != 64))) (.seq (.cls (· == 64)) (.seq (.group 2 (.star (· != 47)))
    (.opt (.group 3 (.seq (.cls (· == 47)) (.group 4 (.star fun _ => true)))))))

/-- `av_address_from_string` as the source has it, with `regex_search`. A group
that did not take part reads as empty. -/
def regexAvAddress (avAddress : Bytes) : AvAddress :=
  match search addressPattern avAddress with
  | some m =>
    ⟨(m 1).getD [], (m 2).getD [], if (m 3).isSome then some ((m 4).getD []) else none⟩
  | none => ⟨avAddress, text "avplayer.org", none⟩

theorem takeWhile_until {c : UInt8} {s : Bytes} (h : c ∉ s) (t : Bytes) :
    (s ++ c :: t).takeWhile (· != c) = s := by
  have hs : ∀ b ∈ s, (b != c) = true := fun b hb => by simpa using ne_of_mem_of_not_mem hb h
  rw [List.takeWhile_append_of_pos hs]
  simp

theorem dropWhile_until {c : UInt8} {s : Bytes} (h : c ∉ s) (t : Bytes) :
    (s ++ c :: t).dropWhile (· != c) = c :: t := by
  have hs : ∀ b ∈ s, (b != c) = true := fun b hb => by simpa using ne_of_mem_of_not_mem hb h
  rw [List.dropWhile_append_of_pos hs]
  simp

theorem takeWhile_absent {c : UInt8} {s : Bytes} (h : c ∉ s) : s.takeWhile (· != c) = s :=
  List.takeWhile_eq_self_iff.mpr fun b hb => by simpa using ne_of_mem_of_not_mem hb h

theorem dropWhile_absent {c : UInt8} {s : Bytes} (h : c ∉ s) : s.dropWhile (· != c) = [] :=
  List.dropWhile_eq_nil_iff.mpr fun b hb => by simpa using ne_of_mem_of_not_mem hb h

theorem address_shapes (s : Bytes) :
    64 ∉ s ∨ (∃ u d, 64 ∉ u ∧ 47 ∉ d ∧ s = u ++ 64 :: d) ∨
      ∃ u d r, 64 ∉ u ∧ 47 ∉ d ∧ s = u ++ 64 :: (d ++ 47 :: r) := by
  by_cases hat : 64 ∈ s
  · obtain ⟨u, rest, rfl, hu⟩ := List.eq_append_cons_of_mem hat
    by_cases hslash : 47 ∈ rest
    · obtain ⟨d, r, rfl, hd⟩ := List.eq_append_cons_of_mem hslash
      exact .inr (.inr ⟨u, d, r, hu, hd, rfl⟩)
    · exact .inr (.inl ⟨u, rest, hu, hslash, rfl⟩)
  · exact .inl hat

theorem avAddressFromString_plain (h : 64 ∉ s) :
    avAddressFromString s = ⟨s, text "avplayer.org", none⟩ := by
  simp [avAddressFromString, dropWhile_absent h]

theorem avAddressFromString_domain (hu : 64 ∉ u) (hd : 47 ∉ d) :
    avAddressFromString (u ++ 64 :: d) = ⟨u, d, none⟩ := by
  simp [avAddressFromString, dropWhile_until hu, takeWhile_until hu, dropWhile_absent hd]

theorem avAddressFromString_resource (hu : 64 ∉ u) (hd : 47 ∉ d) (r : Bytes) :
    avAddressFromString (u ++ 64 :: (d ++ 47 :: r)) = ⟨u, d, some r⟩ := by
  simp [avAddressFromString, dropWhile_until hu, takeWhile_until hu, dropWhile_until hd,
    takeWhile_until hd]

theorem first_addressPattern (hu : 64 ∉ u)
    (h : First (.seq (.group 2 (.star (· != 47)))
      (.opt (.group 3 (.seq (.cls (· == 47)) (.group 4 (.star fun _ => true))))))
      (Function.update (fun _ => none) 1 (some u)) rest x) :
    search addressPattern (u ++ 64 :: rest) = some x.1 := by
  refine First.search (.seq (.group_star _ _ _) ?_)
  rw [takeWhile_until hu, dropWhile_until hu]
  exact .seq (.cls rfl) h

/-- The search finds what cutting at the first `@` and at the first `/` behind
it finds. -/
theorem regexAvAddress_eq (s : Bytes) : regexAvAddress s = avAddressFromString s := by
  obtain hat | ⟨u, d, hu, hd, rfl⟩ | ⟨u, d, r, hu, hd, rfl⟩ := address_shapes s
  · have hnone : search addressPattern s = none :=
      search_seq_cls_eq_none fun b hb => by simpa using ne_of_mem_of_not_mem hb hat
    rw [avAddressFromString_plain hat, regexAvAddress, hnone]
  · have hfound := first_addressPattern hu (.seq (.group_star _ _ d) (.skip (by
      rw [dropWhile_absent hd]
      rfl)))
    rw [avAddressFromString_domain hu hd, regexAvAddress, hfound]
    simp [Function.update, takeWhile_absent hd]
  · have hresource : ∀ m, First (.group 3 (.seq (.cls (· == 47)) (.group 4 (.star fun _ => true))))
        m (47 :: r) (Function.update (Function.update m 4 (some r)) 3 (some (47 :: r)), []) := by
      intro m
      have hall : First (.group 4 (.star fun _ => true)) m r
          (Function.update m 4 (some r), []) := by
        have h := First.group_star (i := 4) (fun _ => true) m r
        rwa [List.takeWhile_eq_self_iff.mpr (by simp), List.dropWhile_eq_nil_iff.mpr (by simp)] at h
      have hslash : First (.seq (.cls (· == 47)) (.group 4 (.star fun _ => true))) m (47 :: r ++ [])
          (Function.update m 4 (some r), []) := by
        rw [List.append_nil]
        exact .seq (.cls rfl) hall
      simpa using hslash.group (i := 3)
    have hfound := first_addressPattern hu (.seq (.group_star _ _ (d ++ 47 :: r)) (.opt (by
      rw [dropWhile_until hd]
      exact hresource _)))
    rw [avAddressFromString_resource hu hd, regexAvAddress, hfound]
    simp [Function.update, takeWhile_until hd]

-- ---------------------------------------------------------------------------
-- Printing and parsing
-- ---------------------------------------------------------------------------

theorem username_avAddressFromString (s : Bytes) : 64 ∉ (avAddressFromString s).username := by
  obtain hat | ⟨u, d, hu, hd, rfl⟩ | ⟨u, d, r, hu, hd, rfl⟩ := address_shapes s
  · rwa [avAddressFromString_plain hat]
  · rwa [avAddressFromString_domain hu hd]
  · rwa [avAddressFromString_resource hu hd]

theorem domain_avAddressFromString (s : Bytes) : 47 ∉ (avAddressFromString s).domain := by
  obtain hat | ⟨u, d, hu, hd, rfl⟩ | ⟨u, d, r, hu, hd, rfl⟩ := address_shapes s
  · rw [avAddressFromString_plain hat]
    show 47 ∉ text "avplayer.org"
    decide
  · rwa [avAddressFromString_domain hu hd]
  · rwa [avAddressFromString_resource hu hd]

theorem avAddressToString_none (u d : Bytes) : avAddressToString ⟨u, d, none⟩ = u ++ 64 :: d := by
  simp [avAddressToString, text]

theorem avAddressToString_some (u d r : Bytes) :
    avAddressToString ⟨u, d, some r⟩ = u ++ 64 :: (d ++ 47 :: r) := by
  simp [avAddressToString, text]

theorem avAddressFromString_toString (hu : 64 ∉ addr.username) (hd : 47 ∉ addr.domain) :
    avAddressFromString (avAddressToString addr) = addr := by
  obtain ⟨u, d, resource⟩ := addr
  cases resource with
  | none => rw [avAddressToString_none, avAddressFromString_domain hu hd]
  | some r => rw [avAddressToString_some, avAddressFromString_resource hu hd]

theorem avAddressToString_fromString (s : Bytes) :
    avAddressToString (avAddressFromString s) =
      if 64 ∈ s then s else s ++ text "@avplayer.org" := by
  obtain hat | ⟨u, d, hu, hd, rfl⟩ | ⟨u, d, r, hu, hd, rfl⟩ := address_shapes s
  · rw [avAddressFromString_plain hat, avAddressToString_none, if_neg hat]
    rfl
  · rw [avAddressFromString_domain hu hd, avAddressToString_none, if_pos (by simp)]
  · rw [avAddressFromString_resource hu hd, avAddressToString_some, if_pos (by simp)]

/-- `@` is octet 64 and `/` is octet 47. The resource may hold anything, and
being there empty is not being absent. -/
theorem regexAvAddress_print_parse :
    (∀ addr, regexAvAddress (avAddressToString addr) = addr ↔
      64 ∉ addr.username ∧ 47 ∉ addr.domain) ∧
    (∀ s, avAddressToString (regexAvAddress s) = if 64 ∈ s then s else s ++ text "@avplayer.org") ∧
    ∀ s, avAddressToString (regexAvAddress (avAddressToString (regexAvAddress s))) =
      avAddressToString (regexAvAddress s) := by
  simp only [regexAvAddress_eq]
  refine ⟨fun addr => ⟨fun h => ?_, fun h => avAddressFromString_toString h.1 h.2⟩,
    avAddressToString_fromString, fun s => ?_⟩
  · rw [← h]
    exact ⟨username_avAddressFromString _, domain_avAddressFromString _⟩
  · rw [avAddressFromString_toString (username_avAddressFromString s)
      (domain_avAddressFromString s)]

inductive IfName
  -- the same name each time
  | stable (name : Bytes)
  -- `avjackif`: the next number
  | avjack
  deriving DecidableEq, Repr

/-- `avjack` and the counter in decimal; the counter is an `unsigned`. -/
def avjackName (t : Nat) : Bytes := text ("avjack" ++ toString (t % 2 ^ 32))

def getIfname (ifname : IfName) (t : Nat) : Bytes × Nat :=
  match ifname with
  | .stable name => (name, t)
  | .avjack => (avjackName t, t + 1)

/-- An `avif`. `id` stands for what its copies share: the implementation, the
`quitting` flag and the write queue. The address, the key and the certificate
are those of `set_pki`; the certificate is kept in its DER form. -/
structure Avif where
  id : Nat
  ifname : IfName
  ifAddress : AvAddress
  rsaKey : RSAKey
  cert : Bytes
  deriving DecidableEq, Repr

theorem text_append (a b : String) : text (a ++ b) = text a ++ text b := by
  simp [text]

theorem text_toString_injective (h : text (toString m) = text (toString (n : Nat))) :
    (m : Nat) = n := by
  have hdigits : ∀ k : Nat,
      (text (toString k)).map (fun b => Char.ofNat b.toNat) = Nat.toDigits 10 k := by
    intro k
    rw [text, Nat.toString_eq_ofList_toDigits, String.toList_ofList, List.map_map]
    conv_rhs => rw [← List.map_id (Nat.toDigits 10 k)]
    refine List.map_congr_left fun c hc => ?_
    have hd := Nat.isDigit_of_mem_toDigits (by decide) (by decide) hc
    simp only [Char.isDigit, Bool.and_eq_true, decide_eq_true_eq, ge_iff_le,
      UInt32.le_iff_toNat_le] at hd
    have hlt : c.toNat < 256 := lt_of_le_of_lt hd.2 (by decide)
    simp only [Function.comp_apply, UInt8.toNat_ofNat', id]
    rw [Nat.mod_eq_of_lt hlt, Char.ofNat_toNat]
  have := congrArg (List.map fun b => Char.ofNat b.toNat) h
  rw [hdigits, hdigits] at this
  rw [← Nat.ofDigitChars_toDigits (b := 10) (n := m) (by decide) (by decide), this,
    Nat.ofDigitChars_toDigits (by decide) (by decide)]

theorem avjackName_succ (t : Nat) : avjackName t ≠ avjackName (t + 1) := by
  intro h
  simp only [avjackName, text_append, List.append_cancel_left_eq] at h
  have := text_toString_injective h
  omega

end Avim
