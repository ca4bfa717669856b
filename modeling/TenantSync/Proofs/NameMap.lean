/-
  TenantSync.Proofs.NameMap
  ─────────────────────────
  **MAPS SEEN FROM OUTSIDE.**

  What the other proofs use of maps beside the lookup lemmas of the type itself:
  which keys a map has, and how a map looks whose keys were all renamed by an
  injective function — the way composite element names are put together.
-/
import TenantSync.NameMap

namespace TenantSync.NameMap

variable {α β : Type}

/-! ## §1. Keys. -/

/-- A map lists every key once. -/
theorem keys_nodup (m : NameMap α) : m.keys.Nodup := by
  unfold keys
  rw [List.nodup_iff_pairwise_ne, List.pairwise_map]
  refine m.ascending.imp fun {a b} hlt heq => ?_
  exact String.lt_irrefl b.1 (heq ▸ hlt)

theorem mem_keys {m : NameMap α} {k : String} : k ∈ m.keys ↔ ∃ v, m.get? k = some v := by
  constructor
  · intro h
    obtain ⟨e, he, rfl⟩ := List.mem_map.1 h
    exact ⟨e.2, get?_eq_some_iff.2 he⟩
  · rintro ⟨v, h⟩
    exact List.mem_map.2 ⟨(k, v), get?_eq_some_iff.1 h, rfl⟩

theorem get?_eq_none_iff {m : NameMap α} {k : String} : m.get? k = none ↔ k ∉ m.keys := by
  rw [mem_keys]
  cases m.get? k <;> simp

theorem mem_values {m : NameMap α} {v : α} : v ∈ m.values ↔ ∃ k, m.get? k = some v := by
  constructor
  · intro h
    obtain ⟨e, he, rfl⟩ := List.mem_map.1 h
    exact ⟨e.1, get?_eq_some_iff.2 he⟩
  · rintro ⟨k, h⟩
    exact List.mem_map.2 ⟨(k, v), get?_eq_some_iff.1 h, rfl⟩

/-- What tells the values of a map apart tells them apart in its list of values. -/
theorem values_pairwise {m : NameMap α} {R : α → α → Prop}
    (h : ∀ {k k' v v'}, m.get? k = some v → m.get? k' = some v' → k ≠ k' → R v v') :
    m.values.Pairwise R := by
  unfold values
  rw [List.pairwise_map]
  refine m.ascending.imp_of_mem fun {a b} ha hb hlt => ?_
  exact h (get?_eq_some_iff.2 ha) (get?_eq_some_iff.2 hb) fun heq =>
    String.lt_irrefl b.1 (heq ▸ hlt)

/-- Maps with the same keys list them alike. -/
theorem keys_congr {m : NameMap α} {n : NameMap β}
    (h : ∀ k, (m.get? k).isSome = (n.get? k).isSome) : m.keys = n.keys := by
  -- without their values the two are the same map
  have hsame : m.map (fun _ => ()) = n.map (fun _ => ()) := by
    refine ext fun k => ?_
    have hk := h k
    rw [get?_map, get?_map]
    cases hm : m.get? k <;> cases hn : n.get? k <;> simp [hm, hn] at hk ⊢
  have hkeys : ∀ {γ : Type} (l : NameMap γ), (l.map fun _ => ()).keys = l.keys := fun l => by
    simp [keys, map, List.map_map, Function.comp_def]
  rw [← hkeys m, hsame, hkeys n]

/-- The keys of a map are determined by which they are. -/
theorem keys_ext {m : NameMap α} {n : NameMap β} (h : ∀ k, k ∈ m.keys ↔ k ∈ n.keys) :
    m.keys = n.keys := by
  refine keys_congr fun k => ?_
  have hk := h k
  rw [mem_keys, mem_keys] at hk
  cases hm : m.get? k <;> cases hn : n.get? k <;> simp [hm, hn] at hk ⊢

/-- Replacing a value leaves the keys alone. -/
theorem keys_insert {m : NameMap α} {k : String} {v w : α} (h : m.get? k = some w) :
    (m.insert k v).keys = m.keys := by
  refine keys_congr fun k' => ?_
  rw [get?_insert]
  by_cases hk : k' = k
  · rw [if_pos hk, hk, h]
    rfl
  · rw [if_neg hk]

/-- A map without entries is the empty one. -/
theorem eq_empty_of_isEmpty {m : NameMap α} (h : m.isEmpty = true) : m = .empty := by
  obtain ⟨entries, hascending⟩ := m
  cases List.isEmpty_iff.1 h
  rfl

/-- A new key puts one entry among the others. -/
theorem entries_insert {m : NameMap α} {k : String} {v : α} (h : m.get? k = none) :
    (m.insert k v).entries.Perm ((k, v) :: m.entries) := by
  unfold get? at h
  show (insertEntry k v m.entries).Perm _
  generalize m.entries = l at h ⊢
  induction l with
  | nil => exact .refl _
  | cons e rest ih =>
      obtain ⟨k', v'⟩ := e
      rw [lookupEntry] at h
      split at h
      · cases h
      next hne =>
        rw [insertEntry, if_neg hne]
        split
        · exact .refl _
        · exact ((ih h).cons _).trans (.swap _ _ _)

/-- Without one of its keys a map lacks one entry. -/
theorem entries_erase {m : NameMap α} {k : String} {v : α} (h : m.get? k = some v) :
    m.entries.Perm ((k, v) :: (m.erase k).entries) := by
  have hsame : (m.erase k).insert k v = m := by
    refine ext fun k' => ?_
    rw [get?_insert, get?_erase]
    split
    next heq => rw [heq, h]
    next => rfl
  have hnone : (m.erase k).get? k = none := by rw [get?_erase, if_pos rfl]
  have hinsert := entries_insert (v := v) hnone
  rwa [hsame] at hinsert

theorem values_insert {m : NameMap α} {k : String} {v : α} (h : m.get? k = none) :
    (m.insert k v).values.Perm (v :: m.values) := (entries_insert h).map Prod.snd

theorem values_erase {m : NameMap α} {k : String} {v : α} (h : m.get? k = some v) :
    m.values.Perm (v :: (m.erase k).values) := (entries_erase h).map Prod.snd

/-- A new key makes a map larger by one. -/
theorem size_insert {m : NameMap α} {k : String} {v : α} (h : m.get? k = none) :
    (m.insert k v).size = m.size + 1 := (entries_insert h).length_eq

/-- Without one of its keys a map is smaller by one. -/
theorem size_erase {m : NameMap α} {k : String} {v : α} (h : m.get? k = some v) :
    (m.erase k).size + 1 = m.size := (entries_erase h).length_eq.symm

/-- A key that a map does not have makes no difference to it. -/
theorem erase_eq_self {m : NameMap α} {k : String} (h : m.get? k = none) : m.erase k = m := by
  refine ext fun k' => ?_
  rw [get?_erase]
  split
  next heq => rw [heq, h]
  next => rfl

/-- A map whose entries are all in another one lists them in the same order. -/
theorem entries_sublist {m n : NameMap α} (h : ∀ k v, m.get? k = some v → n.get? k = some v) :
    m.entries.Sublist n.entries := by
  have hfilter : m = n.filter fun k _ => m.contains k := by
    refine ext fun k => ?_
    rw [get?_filter]
    unfold contains
    cases hk : m.get? k with
    | none => cases n.get? k <;> rfl
    | some v => rw [h k v hk]; rfl
  have hentries : m.entries = (n.filter fun k _ => m.contains k).entries :=
    congrArg entries hfilter
  rw [hentries]
  exact List.filter_sublist

theorem lookupEntry_eq_none_iff {k : String} {l : List (String × α)} :
    lookupEntry k l = none ↔ k ∉ l.map Prod.fst := by
  induction l with
  | nil => simp [lookupEntry]
  | cons e rest ih =>
      rw [lookupEntry, List.map_cons, List.mem_cons, not_or]
      by_cases h : k = e.1
      · simp [h]
      · simp [h, ih]

theorem lookupEntry_append (k : String) (l l' : List (String × α)) :
    lookupEntry k (l ++ l') = (lookupEntry k l).or (lookupEntry k l') := by
  induction l with
  | nil => rfl
  | cons e l ih =>
      rw [List.cons_append, lookupEntry, lookupEntry, ih]
      split <;> rfl

/-- The keys of a map built from pairs are theirs. -/
theorem mem_keys_ofList {pairs : List (String × α)} {k : String} :
    k ∈ (ofList pairs).keys ↔ k ∈ pairs.map Prod.fst := by
  have hnone : (ofList pairs).get? k = none ↔ k ∉ pairs.map Prod.fst := by
    unfold ofList
    rw [get?_insertAll, get?_empty, Option.or_none, lookupEntry_eq_none_iff, List.map_reverse,
      List.mem_reverse]
  rw [get?_eq_none_iff] at hnone
  exact Decidable.not_iff_not.1 hnone

/-- A map is built from its own entries. -/
theorem ofList_entries (m : NameMap α) : ofList m.entries = m := by
  refine ext fun k => ?_
  unfold ofList
  rw [get?_insertAll, lookupEntry_reverse m.ascending, get?_empty, Option.or_none]
  rfl

/-- A map is the one of any list that has its entries. -/
theorem ofList_eq_of_perm {pairs : List (String × α)} {m : NameMap α} (h : pairs.Perm m.entries) :
    ofList pairs = m := by
  refine ext fun k => ?_
  unfold ofList
  rw [get?_insertAll, get?_empty, Option.or_none]
  cases hlookup : lookupEntry k pairs.reverse with
  | some v =>
      have hmem := List.mem_reverse.1 (mem_of_lookupEntry hlookup)
      exact (get?_eq_some_iff.2 (h.mem_iff.1 hmem)).symm
  | none =>
      rw [lookupEntry_eq_none_iff, List.map_reverse, List.mem_reverse] at hlookup
      exact (get?_eq_none_iff.2 fun hk => hlookup ((h.map Prod.fst).mem_iff.2 hk)).symm

/-- In a set there is nothing under a name but that it is there. -/
theorem set_ext {m n : NameSet} (h : ∀ k, k ∈ m.keys ↔ k ∈ n.keys) : m = n := by
  refine ext fun k => ?_
  have hk := h k
  rw [mem_keys, mem_keys] at hk
  cases hm : m.get? k <;> cases hn : n.get? k <;> simp_all

/-- Lists of the same names are one set. -/
theorem set_ofList_congr {l l' : List String} (h : ∀ name, name ∈ l ↔ name ∈ l') :
    NameSet.ofList l = NameSet.ofList l' := by
  refine set_ext fun k => ?_
  unfold NameSet.ofList
  rw [mem_keys_ofList, mem_keys_ofList, List.map_map, List.map_map]
  simpa using h k

/-- A set is built from its own names. -/
theorem set_ofList_keys (m : NameSet) : NameSet.ofList m.keys = m := by
  refine set_ext fun k => ?_
  unfold NameSet.ofList
  rw [mem_keys_ofList, List.map_map]
  simp

/-! ## §2. Totals. -/

section Totals

variable {m : NameMap α} {k : String} {v : α} (f : α → Nat)

/-- The total does not depend on the order of the entries. -/
theorem total_perm {l l' : List (String × α)} (h : l.Perm l') :
    l.foldr (fun e n => f e.2 + n) 0 = l'.foldr (fun e n => f e.2 + n) 0 := by
  induction h with
  | nil => rfl
  | cons e _ ih => rw [List.foldr_cons, List.foldr_cons, ih]
  | swap a b l => simp only [List.foldr_cons]; omega
  | trans _ _ ih ih' => exact ih.trans ih'

theorem total_erase (h : m.get? k = some v) : (m.erase k).total f + f v = m.total f :=
  (Nat.add_comm _ _).trans (total_perm f (entries_erase h)).symm

/-- What is entered under a key counts in place of what was there. -/
theorem total_insert (m : NameMap α) (k : String) (v : α) :
    (m.insert k v).total f + ((m.get? k).map f).getD 0 = m.total f + f v := by
  have hnew : ∀ {n : NameMap α}, n.get? k = none → (n.insert k v).total f = n.total f + f v :=
    fun h => (total_perm f (entries_insert h)).trans (Nat.add_comm _ _)
  cases h : m.get? k with
  | none => exact hnew h
  | some w =>
      -- it is entered as if the key had been erased before
      have hagain : (m.erase k).insert k v = m.insert k v := by
        refine ext fun k' => ?_
        rw [get?_insert, get?_insert, get?_erase]
        split <;> rfl
      have hinsert := hnew (n := m.erase k) (by rw [get?_erase, if_pos rfl])
      have herase := total_erase f h
      rw [hagain] at hinsert
      simp only [Option.map_some, Option.getD_some]
      omega

/-- To count the values of a kind is to take a total. -/
theorem length_filter_values (p : α → Bool) (m : NameMap α) :
    (m.values.filter p).length = m.total fun v => (p v).toNat := by
  unfold values total
  induction m.entries with
  | nil => rfl
  | cons e l ih =>
      rw [List.foldr_cons, ← ih, List.map_cons, List.filter_cons]
      cases hp : p e.2 <;> simp [hp, Nat.add_comm]

end Totals

/-! ## §3. Renamed keys. -/

/-- A list of entries under renamed keys answers for a renamed key as before. -/
theorem lookupEntry_rename {f : String → String} (hf : Function.Injective f) (k : String) :
    ∀ l : List (String × α), lookupEntry (f k) (l.map fun e => (f e.1, e.2)) = lookupEntry k l
  | [] => rfl
  | e :: l => by
      simp only [List.map_cons, lookupEntry, lookupEntry_rename hf k l]
      by_cases h : k = e.1
      · rw [if_pos h, if_pos (congrArg f h)]
      · rw [if_neg h, if_neg fun heq => h (hf heq)]

/-- A map whose keys are renamed by an injective function. -/
theorem get?_rename {f : String → String} (hf : Function.Injective f) (m : NameMap α)
    (k : String) : (ofList (m.entries.map fun e => (f e.1, e.2))).get? (f k) = m.get? k := by
  unfold ofList
  rw [get?_insertAll, ← List.map_reverse, lookupEntry_rename hf, lookupEntry_reverse m.ascending]
  cases h : lookupEntry k m.entries <;> simp [get?, h, empty, lookupEntry]

/-- It holds nothing under a key that is not a renamed one. -/
theorem get?_rename_of_ne {f : String → String} (m : NameMap α) {k : String} (h : ∀ a, k ≠ f a) :
    (ofList (m.entries.map fun e => (f e.1, e.2))).get? k = none := by
  rw [get?_eq_none_iff]
  intro hk
  obtain ⟨e, he, rfl⟩ := List.mem_map.1 hk
  obtain ⟨e', -, rfl⟩ := List.mem_map.1 (mem_entries_ofList he)
  exact h e'.1 rfl

/-! ## §4. Lists of pairs. -/

/-- Without the pairs of one key, those of other keys are found as before. -/
theorem lookup_filter_of_ne {κ ν : Type} [BEq κ] [LawfulBEq κ] {key other : κ}
    (h : other ≠ key) (l : List (κ × ν)) :
    (l.filter fun e => e.1 != key).lookup other = l.lookup other := by
  induction l with
  | nil => rfl
  | cons e rest ih =>
      obtain ⟨k, v⟩ := e
      by_cases hk : k = key
      · have hne : (other == k) = false := beq_false_of_ne (hk ▸ h)
        rw [List.filter_cons_of_neg (by simp [hk]), List.lookup_cons, hne, ih]
      · rw [List.filter_cons_of_pos (by simpa using hk), List.lookup_cons, List.lookup_cons, ih]

end TenantSync.NameMap
