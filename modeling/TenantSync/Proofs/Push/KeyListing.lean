/-
  TenantSync.Proofs.Push.KeyListing
  ─────────────────────────────────
  **UNDER WHICH NAMES A TENANT'S KEYS ARE LISTED.**

  Each installation key has an identity of its own, and a listing goes through
  the keys in the order of their identifiers:

      identity not taken   the key is listed under it
      identity taken       the key is listed under `identity#identifier`

  The names of a listing only grow when a key is put anywhere among the others
  (`keyElements_mono`), every identity is among them, and keys with different
  identities are listed under exactly these (`get?_keyElements`).  What may go
  wrong is that a key whose description is of the second form is hidden by the
  key that is listed under this name after it; whether that is so of any key shows in
  the number of those that are listed (`all_listed_iff`).
-/
import Mathlib.Data.List.Induction
import Mathlib.Data.List.Perm.Subperm
import TenantSync.Proofs.NameMap
import TenantSync.Push.Stores

namespace TenantSync.Push.Store

open Config

/-- The identity that a key of the tenant has by itself. -/
def ownIdentity (key : Remote InstallationKey) : Option String :=
  if key.body.desc.isEmpty then key.info.id else some key.body.desc

theorem ownIdentity_of_desc {key : Remote InstallationKey} {i : String} (h : key.body.desc = i)
    (hi : i ≠ "") : ownIdentity key = some i := by
  unfold ownIdentity
  rw [h, if_neg]
  rwa [String.isEmpty_iff]

/-- The name under which a key is listed whose identity is taken. -/
def secondName (identity id : String) : String := identity ++ "#" ++ id

variable {keys keys' : NameMap (Remote InstallationKey)} {key : Remote InstallationKey}
  {l l' : List (Remote InstallationKey)} {i j id : String}

/-! ## §1. One key. -/

/-- A key with an identifier is entered in one of two ways. -/
theorem enterKey_cases (keys : NameMap (Remote InstallationKey)) (hid : key.info.id = some id) :
    ∃ i, ownIdentity key = some i
      ∧ (keys.get? i = none ∧ enterKey keys key = keys.insert i key
        ∨ keys.get? i ≠ none ∧ enterKey keys key = keys.insert (secondName i id) key) := by
  have hown : ∃ i, ownIdentity key = some i := by
    unfold ownIdentity
    split
    · exact ⟨id, hid⟩
    · exact ⟨_, rfl⟩
  obtain ⟨i, hi⟩ := hown
  refine ⟨i, hi, ?_⟩
  have henter : enterKey keys key = if keys.contains i then keys.insert (secondName i id) key
      else keys.insert i key := by
    unfold enterKey
    unfold ownIdentity at hi
    rw [hid] at hi
    simp only [hid, hi]
    rfl
  rw [henter]
  unfold NameMap.contains
  cases keys.get? i with
  | none => exact .inl ⟨rfl, rfl⟩
  | some held => exact .inr ⟨Option.some_ne_none held, rfl⟩

theorem mem_keys_insert {held : Remote InstallationKey} :
    j ∈ (keys.insert i held).keys ↔ j = i ∨ j ∈ keys.keys := by
  rw [NameMap.mem_keys, NameMap.mem_keys]
  by_cases hj : j = i
  · simp [NameMap.get?_insert, hj]
  · simp [NameMap.get?_insert, hj]

/-- Names that are taken stay taken, and the identity of the key becomes one of them. -/
theorem mem_keys_enterKey (hid : key.info.id = some id)
    (h : j ∈ keys.keys ∨ ownIdentity key = some j) : j ∈ (enterKey keys key).keys := by
  obtain ⟨i, hown, ⟨-, henter⟩ | ⟨htaken, henter⟩⟩ := enterKey_cases keys hid
  · rw [henter, mem_keys_insert]
    rcases h with h | h
    · exact .inr h
    · exact .inl (Option.some.inj (h.symm.trans hown))
  · rw [henter, mem_keys_insert]
    rcases h with h | h
    · exact .inr h
    · cases Option.some.inj (h.symm.trans hown)
      exact .inr (Classical.byContradiction fun hnot => htaken (NameMap.get?_eq_none_iff.2 hnot))

/-- Where more names were taken, more are taken afterwards. -/
theorem enterKey_mono (hid : key.info.id = some id) (h : ∀ j ∈ keys.keys, j ∈ keys'.keys) :
    ∀ j ∈ (enterKey keys key).keys, j ∈ (enterKey keys' key).keys := by
  intro j hj
  obtain ⟨i, hown, ⟨hfree, henter⟩ | ⟨htaken, henter⟩⟩ := enterKey_cases keys hid
  · rw [henter, mem_keys_insert] at hj
    rcases hj with rfl | hj
    · exact mem_keys_enterKey hid (.inr hown)
    · exact mem_keys_enterKey hid (.inl (h j hj))
  · rw [henter, mem_keys_insert] at hj
    rcases hj with rfl | hj
    · -- the identity is taken in the larger listing as well
      obtain ⟨i', hown', ⟨hfree', -⟩ | ⟨-, henter'⟩⟩ := enterKey_cases keys' hid
      · cases Option.some.inj (hown.symm.trans hown')
        have hmem : i ∈ keys.keys :=
          Classical.byContradiction fun hnot => htaken (NameMap.get?_eq_none_iff.2 hnot)
        exact absurd (h i hmem) (NameMap.get?_eq_none_iff.1 hfree')
      · cases Option.some.inj (hown.symm.trans hown')
        rw [henter', mem_keys_insert]
        exact .inl rfl
    · exact mem_keys_enterKey hid (.inl (h j hj))

/-! ## §2. All keys. -/

theorem keyElements_append_singleton : keyElements (l ++ [key]) = enterKey (keyElements l) key := by
  unfold keyElements
  rw [List.foldl_append]
  rfl

/-- **The names of a listing only grow** with the keys, wherever they are put. -/
theorem keyElements_mono (hids : ∀ key ∈ l', key.info.id ≠ none) (h : l.Sublist l') :
    ∀ j ∈ (keyElements l).keys, j ∈ (keyElements l').keys := by
  -- both listings are continued from any two of which the second has more names
  have hfold : ∀ {l l' : List (Remote InstallationKey)}, l.Sublist l' →
      (∀ key ∈ l', key.info.id ≠ none) → ∀ keys keys' : NameMap (Remote InstallationKey),
      (∀ j ∈ keys.keys, j ∈ keys'.keys) →
      ∀ j ∈ (l.foldl enterKey keys).keys, j ∈ (l'.foldl enterKey keys').keys := by
    intro l l' h
    induction h with
    | slnil => exact fun _ _ _ h => h
    | cons key _ ih =>
        intro hids keys keys' hmore
        obtain ⟨hkey, hids⟩ := List.forall_mem_cons.1 hids
        obtain ⟨id, hid⟩ := Option.ne_none_iff_exists'.1 hkey
        exact ih hids _ _ fun j hj => mem_keys_enterKey hid (.inl (hmore j hj))
    | cons_cons key _ ih =>
        intro hids keys keys' hmore
        obtain ⟨hkey, hids⟩ := List.forall_mem_cons.1 hids
        obtain ⟨id, hid⟩ := Option.ne_none_iff_exists'.1 hkey
        exact ih hids _ _ (enterKey_mono hid hmore)
  exact hfold h hids .empty .empty fun _ h => h

/-- The identity of a key is listed. -/
theorem own_mem_keyElements (hids : ∀ key ∈ l, key.info.id ≠ none) (hkey : key ∈ l)
    (hown : ownIdentity key = some i) : i ∈ (keyElements l).keys := by
  obtain ⟨id, hid⟩ := Option.ne_none_iff_exists'.1 (hids key hkey)
  -- it is listed where the key is the only one
  refine keyElements_mono hids (List.singleton_sublist.2 hkey) i ?_
  exact mem_keys_enterKey hid (.inr hown)

/-- One more key is entered under some name. -/
theorem keyElements_insert (hid : key.info.id ≠ none) :
    ∃ j, keyElements (l ++ [key]) = (keyElements l).insert j key := by
  obtain ⟨id, hid⟩ := Option.ne_none_iff_exists'.1 hid
  rw [keyElements_append_singleton]
  obtain ⟨i, -, ⟨-, henter⟩ | ⟨-, henter⟩⟩ := enterKey_cases (keyElements l) hid
  · exact ⟨_, henter⟩
  · exact ⟨_, henter⟩

/-- What is listed is one of the keys. -/
theorem mem_of_get?_keyElements (hids : ∀ key ∈ l, key.info.id ≠ none)
    (h : (keyElements l).get? i = some key) : key ∈ l := by
  induction l using List.reverseRecOn with
  | nil => cases h
  | append_singleton l last ih =>
      obtain ⟨hids, hlast⟩ := List.forall_mem_append.1 hids
      obtain ⟨j, hinsert⟩ := keyElements_insert (l := l) (hlast last List.mem_cons_self)
      rw [hinsert, NameMap.get?_insert] at h
      split at h
      · cases h
        exact List.mem_append_right _ List.mem_cons_self
      · exact List.mem_append_left _ (ih hids h)

/-- No key is listed twice. -/
theorem keyElements_injective (hids : ∀ key ∈ l, key.info.id ≠ none) (hnodup : l.Nodup)
    (hi : (keyElements l).get? i = some key) (hj : (keyElements l).get? j = some key) : i = j := by
  induction l using List.reverseRecOn with
  | nil => cases hi
  | append_singleton l last ih =>
      obtain ⟨hids, hlast⟩ := List.forall_mem_append.1 hids
      obtain ⟨hnodup, -, hnew⟩ := List.nodup_append.1 hnodup
      -- the last key is not among those that are listed before it
      have hnot : ∀ {i}, (keyElements l).get? i ≠ some last := fun h =>
        hnew last (mem_of_get?_keyElements hids h) last List.mem_cons_self rfl
      obtain ⟨k, hinsert⟩ := keyElements_insert (l := l) (hlast last List.mem_cons_self)
      rw [hinsert, NameMap.get?_insert] at hi hj
      split at hi <;> split at hj
      next hik hjk => exact hik.trans hjk.symm
      next =>
        cases hi
        exact absurd hj hnot
      next =>
        cases hj
        exact absurd hi hnot
      next => exact ih hids hnodup hi hj

/-- Keys as a tenant may have them: each knows its identifier, and no two have the same. -/
structure Identified (l : List (Remote InstallationKey)) : Prop where
  known : ∀ key ∈ l, key.info.id ≠ none
  distinct : l.Pairwise fun a b => a.info.id ≠ b.info.id

theorem Identified.nodup (h : Identified l) : l.Nodup :=
  h.distinct.imp fun hne heq => hne (congrArg (fun key => key.info.id) heq)

/-- Every key is listed exactly if as many are listed as there are. -/
theorem all_listed_iff (h : Identified l) :
    (∀ key ∈ l, ∃ i, (keyElements l).get? i = some key) ↔ (keyElements l).size = l.length := by
  -- what is listed is part of the keys, each of them once
  have hnodup : (keyElements l).values.Nodup := by
    refine NameMap.values_pairwise fun {i j key key'} hi hj hne heq => hne ?_
    subst heq
    exact keyElements_injective h.known h.nodup hi hj
  have hsubset : (keyElements l).values ⊆ l := by
    intro key hkey
    obtain ⟨i, hi⟩ := NameMap.mem_values.1 hkey
    exact mem_of_get?_keyElements h.known hi
  have hsize : (keyElements l).size = (keyElements l).values.length := by
    unfold NameMap.size NameMap.values
    rw [List.length_map]
  have hsub := List.subperm_of_subset hnodup hsubset
  rw [hsize]
  constructor
  · intro hall
    have hperm := (List.perm_ext_iff_of_nodup hnodup h.nodup).2 fun key =>
      ⟨fun hkey => hsubset hkey, fun hkey => NameMap.mem_values.2 (hall key hkey)⟩
    exact hperm.length_eq
  · intro hlength key hkey
    have hperm := hsub.perm_of_length_le (Nat.le_of_eq hlength.symm)
    exact NameMap.mem_values.1 (hperm.mem_iff.2 hkey)

/-- **Keys with different identities are listed under these**, and nothing else is listed. -/
theorem get?_keyElements (hids : ∀ key ∈ l, key.info.id ≠ none)
    (hdistinct : l.Pairwise fun a b => ownIdentity a ≠ ownIdentity b) :
    (keyElements l).get? i = some key ↔ key ∈ l ∧ ownIdentity key = some i := by
  induction l using List.reverseRecOn generalizing i key with
  | nil => exact ⟨fun h => (nomatch h), fun h => nomatch h.1⟩
  | append_singleton l last ih =>
      obtain ⟨hids, hlast⟩ := List.forall_mem_append.1 hids
      obtain ⟨hdistinct, -, hnew⟩ := List.pairwise_append.1 hdistinct
      obtain ⟨id, hid⟩ := Option.ne_none_iff_exists'.1 (hlast last List.mem_cons_self)
      have ih' : ∀ i key, (keyElements l).get? i = some key ↔ key ∈ l ∧ ownIdentity key = some i :=
        fun _ _ => ih hids hdistinct
      obtain ⟨j, hown, ⟨-, henter⟩ | ⟨htaken, -⟩⟩ := enterKey_cases (keyElements l) hid
      · rw [keyElements_append_singleton, henter, NameMap.get?_insert, List.mem_append,
          List.mem_singleton]
        by_cases hij : i = j
        · subst hij
          rw [if_pos rfl]
          constructor
          · intro h
            cases h
            exact ⟨.inr rfl, hown⟩
          · rintro ⟨hmem | rfl, hown'⟩
            · exact absurd (hown'.trans hown.symm) (hnew key hmem last List.mem_cons_self)
            · rfl
        · rw [if_neg hij, ih']
          constructor
          · exact fun h => ⟨.inl h.1, h.2⟩
          · rintro ⟨hmem | rfl, hown'⟩
            · exact ⟨hmem, hown'⟩
            · exact absurd (Option.some.inj (hown'.symm.trans hown)) hij
      · -- its identity is not taken by any of the keys before it
        obtain ⟨held, hheld⟩ := Option.ne_none_iff_exists'.1 htaken
        obtain ⟨hmem, hown'⟩ := (ih' j held).1 hheld
        exact absurd (hown'.trans hown.symm) (hnew held hmem last List.mem_cons_self)

/-- What a key is listed under is its identity or its second name. -/
theorem name_of_listed (hids : ∀ key ∈ l, key.info.id ≠ none)
    (h : (keyElements l).get? j = some key) :
    ownIdentity key = some j
      ∨ ∃ i id, ownIdentity key = some i ∧ key.info.id = some id ∧ j = secondName i id := by
  induction l using List.reverseRecOn with
  | nil => cases h
  | append_singleton l last ih =>
      obtain ⟨hids, hlast⟩ := List.forall_mem_append.1 hids
      obtain ⟨id, hid⟩ := Option.ne_none_iff_exists'.1 (hlast last List.mem_cons_self)
      rw [keyElements_append_singleton] at h
      obtain ⟨i, hown, ⟨-, henter⟩ | ⟨-, henter⟩⟩ := enterKey_cases (keyElements l) hid
      · rw [henter, NameMap.get?_insert] at h
        split at h
        next heq =>
          cases h
          exact .inl (heq ▸ hown)
        next => exact ih hids h
      · rw [henter, NameMap.get?_insert] at h
        split at h
        next heq =>
          cases h
          exact .inr ⟨i, id, hown, hid, heq⟩
        next => exact ih hids h

/-- Second names tell identifiers apart. -/
theorem id_of_secondName {i' id' : String} (h : secondName i id = secondName i' id')
    (hid : '#' ∉ id.toList) (hid' : '#' ∉ id'.toList) : id = id' := by
  -- the identifier is what stands behind the last mark
  have hlast : ∀ {i id : String}, '#' ∉ id.toList →
      (secondName i id).toList.reverse.takeWhile (· ≠ '#') = id.toList.reverse := by
    intro i id hid
    have hlist : (secondName i id).toList.reverse
        = id.toList.reverse ++ '#' :: i.toList.reverse := by
      simp [secondName]
    rw [hlist, List.takeWhile_append_of_pos]
    · simp
    · intro c hc
      rw [decide_eq_true_iff]
      rintro rfl
      exact hid (List.mem_reverse.1 hc)
  have hreverse := hlast (i := i) hid
  rw [h, hlast hid'] at hreverse
  exact String.toList_inj.1 (List.reverse_inj.1 hreverse).symm

/-- **Every key is listed** if none has the second name of a key as its identity. -/
theorem size_keyElements (hids : ∀ key ∈ l, ∃ id, key.info.id = some id ∧ '#' ∉ id.toList)
    (hdistinct : l.Pairwise fun a b => a.info.id ≠ b.info.id)
    (hfree : ∀ key ∈ l, ∀ i id, ownIdentity key = some i → key.info.id = some id →
      ∀ key' ∈ l, ownIdentity key' ≠ some (secondName i id)) :
    (keyElements l).size = l.length := by
  induction l using List.reverseRecOn with
  | nil => rfl
  | append_singleton l last ih =>
      obtain ⟨hids, hlast⟩ := List.forall_mem_append.1 hids
      obtain ⟨hdistinct, -, hnew⟩ := List.pairwise_append.1 hdistinct
      have hsize := ih hids hdistinct fun key hkey i id hown hid key' hkey' =>
        hfree key (List.mem_append_left _ hkey) i id hown hid key' (List.mem_append_left _ hkey')
      obtain ⟨id, hid, hmark⟩ := hlast last List.mem_cons_self
      have hhave : ∀ key ∈ l, key.info.id ≠ none := by
        intro key hkey
        obtain ⟨id, hid, -⟩ := hids key hkey
        rw [hid]
        exact Option.some_ne_none id
      rw [keyElements_append_singleton, List.length_append, List.length_singleton]
      obtain ⟨i, hown, ⟨hnone, henter⟩ | ⟨-, henter⟩⟩ := enterKey_cases (keyElements l) hid
      · rw [henter, NameMap.size_insert hnone, hsize]
      · -- the second name is not the identity of another key, nor the second name of one
        have hnone : (keyElements l).get? (secondName i id) = none := by
          rw [Option.eq_none_iff_forall_ne_some]
          intro key hkey
          have hmem := mem_of_get?_keyElements hhave hkey
          rcases name_of_listed hhave hkey with hsame | ⟨i', id', -, hid', hname⟩
          · exact hfree last (List.mem_append_right _ List.mem_cons_self) i id hown hid key
              (List.mem_append_left _ hmem) hsame
          · obtain ⟨id'', hid'', hmark'⟩ := hids key hmem
            cases Option.some.inj (hid'.symm.trans hid'')
            refine hnew key hmem last List.mem_cons_self ?_
            rw [hid', hid, id_of_secondName hname hmark hmark']
        rw [henter, NameMap.size_insert hnone, hsize]

/-- Nothing is listed without a name. -/
theorem get?_keyElements_empty (hids : ∀ key ∈ l, ∃ id, key.info.id = some id ∧ id ≠ "") :
    (keyElements l).get? "" = none := by
  induction l using List.reverseRecOn with
  | nil => rfl
  | append_singleton l last ih =>
      obtain ⟨hids, hlast⟩ := List.forall_mem_append.1 hids
      obtain ⟨id, hid, hnonempty⟩ := hlast last List.mem_cons_self
      rw [keyElements_append_singleton]
      obtain ⟨i, hown, ⟨-, henter⟩ | ⟨-, henter⟩⟩ := enterKey_cases (keyElements l) hid
      · have hname : i ≠ "" := by
          rintro rfl
          unfold ownIdentity at hown
          split at hown
          next => exact hnonempty (Option.some.inj (hid.symm.trans hown))
          next hdesc =>
            rw [Option.some.inj hown] at hdesc
            exact hdesc rfl
        rw [henter, NameMap.get?_insert, if_neg hname.symm, ih hids]
      · have hname : secondName i id ≠ "" := by
          unfold secondName
          simp
        rw [henter, NameMap.get?_insert, if_neg hname.symm, ih hids]

end TenantSync.Push.Store
