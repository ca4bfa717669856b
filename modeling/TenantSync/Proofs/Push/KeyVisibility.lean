/-
  TenantSync.Proofs.Push.KeyVisibility
  ────────────────────────────────────
  **WHICH KEYS OF A TENANT CAN BE SEEN.**

  A key that is not listed is in no difference, and no push removes it.  A listing
  gives each key a name, in the order in which the tenant has them:

      identity not given before    the key is given its identity
      identity given before        the key is given `identity#identifier`

  and the map that comes of it holds, of several keys with one name, the last
  (`keyElements_eq`).  So every key is listed exactly if no name is given twice
  (`all_listed_iff`, `size_keyElements_iff`), and the second kind of name is the only one
  that can be: nobody looks whether it was given before, and it is, if a key before it has this
  text for its description (`second_given_iff`).
-/
import Mathlib.Data.List.Perm.Subperm
import TenantSync.Proofs.Push.KeyDecisions

namespace TenantSync

/-! ## §1. Maps of pairs. -/

/-- A map has as many entries as the pairs it was built from exactly if no name is there
twice. -/
theorem NameMap.size_ofList_iff {α : Type} {pairs : List (String × α)} :
    (ofList pairs).size = pairs.length ↔ (pairs.map Prod.fst).Nodup := by
  have hmem : ∀ k, k ∈ (ofList pairs).keys ↔ k ∈ pairs.map Prod.fst := fun _ => mem_keys_ofList
  have hsize : (ofList pairs).size = (ofList pairs).keys.length := by
    unfold size keys
    rw [List.length_map]
  have hlength : pairs.length = (pairs.map Prod.fst).length := by rw [List.length_map]
  rw [hsize, hlength]
  constructor
  · intro h
    have hsub := List.subperm_of_subset (ofList pairs).keys_nodup fun k hk => (hmem k).1 hk
    exact (hsub.perm_of_length_le (Nat.le_of_eq h.symm)).nodup_iff.1 (ofList pairs).keys_nodup
  · intro hnodup
    exact ((List.perm_ext_iff_of_nodup (ofList pairs).keys_nodup hnodup).2 hmem).length_eq

namespace Push.Store

open Config Tenant

variable {l before after : List (Remote InstallationKey)} {key : Remote InstallationKey}
  {i j id : String}

/-! ## §2. The names that are given. -/

/-- The name that a key is given where some are given already. -/
def nameAfter (given : List String) (key : Remote InstallationKey) : String :=
  let own := (ownIdentity key).getD ""
  if own ∈ given then secondName own (key.info.id.getD "") else own

/-- The names that keys are given, one after the other. -/
def givenNames (l : List (Remote InstallationKey)) : List String :=
  l.foldl (fun given key => given ++ [nameAfter given key]) []

theorem givenNames_append_singleton :
    givenNames (l ++ [key]) = givenNames l ++ [nameAfter (givenNames l) key] := by
  unfold givenNames
  rw [List.foldl_append]
  rfl

/-- Each key is given one name. -/
theorem length_givenNames (l : List (Remote InstallationKey)) :
    (givenNames l).length = l.length := by
  induction l using List.reverseRecOn with
  | nil => rfl
  | append_singleton l key ih =>
      rw [givenNames_append_singleton, List.length_append, List.length_append, ih]
      rfl

/-- Names that were given stay given. -/
theorem givenNames_stay (before after : List (Remote InstallationKey)) :
    givenNames before <+: givenNames (before ++ after) := by
  induction after using List.reverseRecOn with
  | nil => simp
  | append_singleton after key ih =>
      rw [← List.append_assoc, givenNames_append_singleton]
      exact ih.trans (List.prefix_append _ _)

/-- **A listing holds the keys under the names they are given**, the last of several with one
name. -/
theorem keyElements_eq (hids : ∀ key ∈ l, key.info.id ≠ none) :
    keyElements l = .ofList ((givenNames l).zip l) := by
  induction l using List.reverseRecOn with
  | nil => rfl
  | append_singleton l key ih =>
      obtain ⟨hids, hkey⟩ := List.forall_mem_append.1 hids
      obtain ⟨id, hid⟩ := Option.ne_none_iff_exists'.1 (hkey key List.mem_cons_self)
      have hlength := length_givenNames l
      -- what is taken in the map is what was given
      have htaken : ∀ j, j ∈ (keyElements l).keys ↔ j ∈ givenNames l := by
        intro j
        rw [ih hids, NameMap.mem_keys_ofList, List.map_fst_zip (by omega)]
      have hlast : enterKey (keyElements l) key
          = (keyElements l).insert (nameAfter (givenNames l) key) key := by
        obtain ⟨i, hown, ⟨hfree, henter⟩ | ⟨hnone, henter⟩⟩ := enterKey_cases (keyElements l) hid
        · have hnot : i ∉ givenNames l := by
            rw [← htaken]
            exact NameMap.get?_eq_none_iff.1 hfree
          rw [henter, nameAfter, hown, Option.getD_some, if_neg hnot]
        · have hgiven : i ∈ givenNames l := by
            rw [← htaken]
            exact Classical.byContradiction fun h => hnone (NameMap.get?_eq_none_iff.2 h)
          rw [henter, nameAfter, hown, hid, Option.getD_some, if_pos hgiven, Option.getD_some]
      rw [keyElements_append_singleton, hlast, givenNames_append_singleton,
        List.zip_append hlength, ih hids]
      show _ = (NameMap.empty.insertAll _)
      unfold NameMap.insertAll
      rw [List.foldl_append]
      rfl

theorem mem_givenNames (hids : ∀ key ∈ l, key.info.id ≠ none) :
    j ∈ givenNames l ↔ j ∈ (keyElements l).keys := by
  have hlength := length_givenNames l
  rw [keyElements_eq hids, NameMap.mem_keys_ofList, List.map_fst_zip (by omega)]

/-! ## §3. Names that are given twice. -/

/-- No name is given twice exactly if no key is given one that was given before. -/
theorem nodup_givenNames_iff : (givenNames l).Nodup ↔ ∀ before key after,
    l = before ++ key :: after → nameAfter (givenNames before) key ∉ givenNames before := by
  constructor
  · rintro hnodup before key after rfl
    have hsplit : before ++ key :: after = before ++ [key] ++ after := by simp
    rw [hsplit] at hnodup
    have hfirst := hnodup.sublist (givenNames_stay (before ++ [key]) after).sublist
    rw [givenNames_append_singleton] at hfirst
    intro hmem
    exact (List.nodup_append.1 hfirst).2.2 _ hmem _ List.mem_cons_self rfl
  · intro hnew
    induction l using List.reverseRecOn with
    | nil => exact List.nodup_nil
    | append_singleton l last ih =>
        rw [givenNames_append_singleton]
        refine List.nodup_append.2 ⟨ih ?_, List.nodup_cons.2 ⟨List.not_mem_nil, .nil⟩, ?_⟩
        · rintro before key after rfl
          exact hnew before key (after ++ [last]) (by simp)
        · intro given hgiven name hname heq
          rw [List.mem_singleton.1 hname] at heq
          exact hnew l last [] rfl (heq ▸ hgiven)

/-- It takes a second name to be given a name again. -/
theorem nameAfter_not_mem_iff {given : List String} (hown : ownIdentity key = some i)
    (hid : key.info.id = some id) :
    nameAfter given key ∉ given ↔ (i ∈ given → secondName i id ∉ given) := by
  unfold nameAfter
  rw [hown, hid, Option.getD_some, Option.getD_some]
  by_cases hgiven : i ∈ given
  · rw [if_pos hgiven]
    exact ⟨fun h _ => h, fun h => h hgiven⟩
  · rw [if_neg hgiven]
    exact ⟨fun _ h => absurd h hgiven, fun _ => hgiven⟩

/-- A second name was given before exactly if it is the description of a key, where no
identifier has a mark. -/
theorem second_given_iff (hids : ∀ key ∈ l, ∃ id, key.info.id = some id ∧ '#' ∉ id.toList)
    (hmark : '#' ∉ id.toList) (hnew : ∀ key ∈ l, key.info.id ≠ some id) :
    secondName i id ∈ givenNames l ↔ ∃ key ∈ l, ownIdentity key = some (secondName i id) := by
  have hhave : ∀ key ∈ l, key.info.id ≠ none := by
    intro key hkey
    obtain ⟨id, hid, -⟩ := hids key hkey
    rw [hid]
    exact Option.some_ne_none id
  rw [mem_givenNames hhave]
  constructor
  · intro hmem
    obtain ⟨key, hlisted⟩ := NameMap.mem_keys.1 hmem
    have hkey := mem_of_get?_keyElements hhave hlisted
    rcases name_of_listed hhave hlisted with hown | ⟨i', id', -, hid', hname⟩
    · exact ⟨key, hkey, hown⟩
    · -- a second name tells the identifier of the key it was given to
      obtain ⟨id'', hid'', hmark'⟩ := hids key hkey
      cases Option.some.inj (hid'.symm.trans hid'')
      rw [id_of_secondName hname hmark hmark'] at hnew
      exact absurd hid' (hnew key hkey)
  · rintro ⟨key, hkey, hown⟩
    exact own_mem_keyElements hhave hkey hown

/-! ## §4. Which keys are listed. -/

/-- The keys of a tenant that began as a new one can be told apart by their identifiers. -/
theorem identified_of_reached {n : Nat} {t : Tenant} (h : Reached n t) :
    Identified t.state.installationKeys.values := values_identified h.keysKnowIds

/-- As many keys are listed as there are exactly if no name is given twice. -/
theorem size_keyElements_iff (hids : ∀ key ∈ l, key.info.id ≠ none) :
    (keyElements l).size = l.length ↔ (givenNames l).Nodup := by
  have hlength := length_givenNames l
  have hzip : ((givenNames l).zip l).length = l.length := by
    rw [List.length_zip]
    omega
  rw [keyElements_eq hids, ← hzip, NameMap.size_ofList_iff, List.map_fst_zip (by omega)]

/-- As many keys are listed as there are exactly if each key whose identity was given before it
finds its second name free. -/
theorem size_keyElements_iff_free (h : Identified l) :
    (keyElements l).size = l.length ↔ ∀ before key after i id, l = before ++ key :: after →
      ownIdentity key = some i → key.info.id = some id →
      i ∈ givenNames before → secondName i id ∉ givenNames before := by
  rw [size_keyElements_iff h.known, nodup_givenNames_iff]
  constructor
  · intro hnew before key after i id hl hown hid
    exact (nameAfter_not_mem_iff hown hid).1 (hnew before key after hl)
  · intro hnew before key after hl
    have hkey : key ∈ l := by
      rw [hl]
      exact List.mem_append_right _ List.mem_cons_self
    obtain ⟨id, hid⟩ := Option.ne_none_iff_exists'.1 (h.known key hkey)
    obtain ⟨i, hown, -⟩ := enterKey_cases .empty hid
    exact (nameAfter_not_mem_iff hown hid).2 (hnew before key after i id hl hown hid)

/-- Where identifiers have no mark, a second name is free exactly if no key before has it for its
description. -/
theorem second_free_iff (h : Identified l)
    (hmarks : ∀ key ∈ l, ∀ id, key.info.id = some id → '#' ∉ id.toList)
    (hl : l = before ++ key :: after) (hid : key.info.id = some id) :
    secondName i id ∉ givenNames before
      ↔ ∀ other ∈ before, ownIdentity other ≠ some (secondName i id) := by
  subst hl
  have hnew : ∀ other ∈ before, other.info.id ≠ some id := by
    intro other hother
    rw [← hid]
    exact (List.pairwise_append.1 h.distinct).2.2 other hother key List.mem_cons_self
  have hids : ∀ other ∈ before, ∃ id, other.info.id = some id ∧ '#' ∉ id.toList := by
    intro other hother
    have hmem : other ∈ before ++ key :: after := List.mem_append_left _ hother
    obtain ⟨id', hid'⟩ := Option.ne_none_iff_exists'.1 (h.known other hmem)
    exact ⟨id', hid', hmarks other hmem id' hid'⟩
  have hmark : '#' ∉ id.toList :=
    hmarks key (List.mem_append_right _ List.mem_cons_self) id hid
  rw [second_given_iff hids hmark hnew, not_exists]
  exact forall_congr' fun other => not_and

/-- What a listing answers, unless the call fails. -/
theorem exec_fetch_keys {t : Tenant} (hfault : t.faults.answer ⟨.list, .installationKey⟩ = none) :
    (exec Store.installationKeys.fetch t).1
      = .ok (keyElements t.state.installationKeys.values) := by
  show (exec (Tenant.installationKeys >>= fun keys => pure (keyElements keys)) t).1 = _
  rw [exec_bind, exec_installationKeys]
  unfold Tenant.reading
  rw [hfault]
  rfl

/-- **Which keys a listing shows.**  Of keys that can be told apart by their identifiers,
only keys are listed, none of them twice, each under the name it was given, unless that was
given again.  All are listed, under one name each, exactly if there are as many entries as
keys; and that is so exactly if no key whose identity was given before it would find its
second name given as well.  Where identifiers have no mark, such a name was given
exactly if it is the description of a key that comes before.  This concerns every tenant that
began as a new one: its keys can be told apart, and unless the call fails they are
what is listed. -/
theorem keyElements_shows (h : Identified l) :
    keyElements l = .ofList ((givenNames l).zip l)
    ∧ (∀ i key, (keyElements l).get? i = some key →
        key ∈ l ∧ ∀ j, (keyElements l).get? j = some key → j = i)
    ∧ ((∀ key ∈ l, ∃ i, (keyElements l).get? i = some key
          ∧ ∀ j, (keyElements l).get? j = some key → j = i)
        ↔ (keyElements l).size = l.length)
    ∧ ((keyElements l).size = l.length ↔ ∀ before key after i id, l = before ++ key :: after →
        ownIdentity key = some i → key.info.id = some id →
        i ∈ givenNames before → secondName i id ∉ givenNames before)
    ∧ ((∀ key ∈ l, ∀ id, key.info.id = some id → '#' ∉ id.toList) →
        ((keyElements l).size = l.length ↔ ∀ before key after i id, l = before ++ key :: after →
          ownIdentity key = some i → key.info.id = some id →
          i ∈ givenNames before → ∀ other ∈ before, ownIdentity other ≠ some (secondName i id)))
    ∧ ∀ n t, Reached n t → Identified t.state.installationKeys.values
        ∧ (t.faults.answer ⟨.list, .installationKey⟩ = none →
          (exec Store.installationKeys.fetch t).1
            = .ok (keyElements t.state.installationKeys.values)) := by
  have honce : ∀ i key, (keyElements l).get? i = some key →
      ∀ j, (keyElements l).get? j = some key → j = i :=
    fun i key hi j hj => keyElements_injective h.known h.nodup hj hi
  refine ⟨keyElements_eq h.known, fun i key hi => ⟨mem_of_get?_keyElements h.known hi,
    honce i key hi⟩, ?_, size_keyElements_iff_free h, fun hmarks => ?_, fun n t hreached =>
    ⟨identified_of_reached hreached, exec_fetch_keys⟩⟩
  · -- a key that is listed is listed once
    rw [← all_listed_iff h]
    constructor
    · intro hall key hkey
      obtain ⟨i, hi, -⟩ := hall key hkey
      exact ⟨i, hi⟩
    · intro hall key hkey
      obtain ⟨i, hi⟩ := hall key hkey
      exact ⟨i, hi, honce i key hi⟩
  · rw [size_keyElements_iff_free h]
    constructor
    · intro hfree before key after i id hl hown hid hgiven
      exact (second_free_iff h hmarks hl hid).1 (hfree before key after i id hl hown hid hgiven)
    · intro hfree before key after i id hl hown hid hgiven
      exact (second_free_iff h hmarks hl hid).2 (hfree before key after i id hl hown hid hgiven)

/-- Keys with one description, and keys without one, are listed under names of their own. -/
theorem keyElements_shows_duplicates :
    let key : String → String → Remote InstallationKey := fun id desc =>
      ⟨{ desc }, { id := some id }⟩
    let l := [key "1" "servers", key "2" "", key "3" "servers", key "4" "servers"]
    Identified l
    ∧ (keyElements l).keys = ["2", "servers", "servers#3", "servers#4"]
    ∧ ∀ key ∈ l, ∃ i, (keyElements l).get? i = some key
        ∧ ∀ j, (keyElements l).get? j = some key → j = i := by
  intro key l
  have hl : Identified l := ⟨by decide, by decide⟩
  have hsize : (keyElements l).size = l.length := by decide +kernel
  exact ⟨hl, by decide +kernel, (keyElements_shows hl).2.2.1.2 hsize⟩

/-- **A key can be hidden.**  Three keys are made on a new tenant; the third shares the
description of the second and is listed in the place of the first, which is described by the
third one's second name. -/
theorem second_name_hides :
    let make : String → Tenant → Tenant := fun desc t => (exec (createInstallationKey { desc }) t).2
    let t := make "a" (make "a" (make "a#key-00000003" { now := ⟨0, 0⟩ }))
    (∃ n, Reached n t) ∧ Identified t.state.installationKeys.values
    ∧ t.state.installationKeys.keys = ["key-00000001", "key-00000002", "key-00000003"]
    ∧ ∃ listed, (exec Store.installationKeys.fetch t).1 = .ok listed
        ∧ listed.entries.map (fun e => (e.1, e.2.info.id))
          = [("a", some "key-00000002"), ("a#key-00000003", some "key-00000003")] := by
  intro make t
  have hmake : ∀ {n : Nat} {t : Tenant} (desc : String), Reached n t → ∃ n, Reached n (make desc t) :=
    fun desc h => ⟨_, .called h (.createInstallationKey { desc })⟩
  obtain ⟨_, hfirst⟩ := hmake "a#key-00000003" (.new ⟨0, 0⟩)
  obtain ⟨_, hsecond⟩ := hmake "a" hfirst
  obtain ⟨n, hn⟩ := hmake "a" hsecond
  refine ⟨⟨n, hn⟩, identified_of_reached hn, by decide +kernel,
    keyElements t.state.installationKeys.values, rfl, by decide +kernel⟩

end Push.Store

end TenantSync
