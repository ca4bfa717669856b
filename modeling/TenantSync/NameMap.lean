/-
  TenantSync.NameMap
  ──────────────────
  **FINITE MAPS FROM NAMES, IN ONE ORDER ONLY.**

  Every section of a document and of a tenant is a finite map whose keys are
  texts.  `NameMap α` stores the entries in strictly ascending key order, and
  the order is a field of the type, so that

      two maps with the same lookups are the same map   (`NameMap.ext`)

  and whoever lists a map lists it in key order.  The one view of a map is
  `get?`; each operation has one lemma that says what it does to that view:

      (m.insert k v).get? k'  =  if k' = k then some v else m.get? k'
      (m.erase k).get? k'     =  if k' = k then none   else m.get? k'
      (m.overlay n).get? k    =  n's entry when it has one, else m's
-/
namespace TenantSync

/-- A finite map from texts to `α`; `entries` ascend strictly by key. -/
structure NameMap (α : Type) where
  /-- The entries, in ascending key order. -/
  entries : List (String × α)
  /-- No key is repeated and every key is below the ones after it. -/
  ascending : entries.Pairwise (fun a b => a.1 < b.1)
  deriving DecidableEq

namespace NameMap

variable {α β : Type}

/-! ## §1. Entry lists. -/

/-- Put `v` under `k` into an ascending entry list, replacing what was there. -/
def insertEntry (k : String) (v : α) : List (String × α) → List (String × α)
  | [] => [(k, v)]
  | (k', v') :: rest =>
      if k < k' then (k, v) :: (k', v') :: rest
      else if k = k' then (k, v) :: rest
      else (k', v') :: insertEntry k v rest

/-- The value an entry list holds under `k`. -/
def lookupEntry (k : String) : List (String × α) → Option α
  | [] => none
  | (k', v') :: rest => if k = k' then some v' else lookupEntry k rest

theorem mem_insertEntry {k : String} {v : α} {e : String × α} {l : List (String × α)}
    (h : e ∈ insertEntry k v l) : e = (k, v) ∨ e ∈ l := by
  induction l with
  | nil => simpa [insertEntry] using h
  | cons hd tl ih =>
    simp only [insertEntry] at h
    split at h
    · simpa using h
    · split at h
      · rcases List.mem_cons.1 h with h | h
        · exact .inl h
        · exact .inr (List.mem_cons_of_mem _ h)
      · rcases List.mem_cons.1 h with h | h
        · exact .inr (h ▸ List.mem_cons_self)
        · exact (ih h).imp id (List.mem_cons_of_mem _)

/-- Of two texts, one is below the other unless they are equal. -/
theorem lt_of_not_lt_of_ne {a b : String} (h : ¬a < b) (hne : a ≠ b) : b < a := by
  rcases Decidable.em (b < a) with h' | h'
  · exact h'
  · exact absurd (String.le_antisymm (String.not_lt.1 h') (String.not_lt.1 h)) hne

theorem insertEntry_ascending (k : String) (v : α) {l : List (String × α)}
    (h : l.Pairwise (fun a b => a.1 < b.1)) :
    (insertEntry k v l).Pairwise (fun a b => a.1 < b.1) := by
  induction l with
  | nil => simp [insertEntry]
  | cons hd tl ih =>
    obtain ⟨hhd, htl⟩ := List.pairwise_cons.1 h
    simp only [insertEntry]
    split
    next hlt =>
      refine List.pairwise_cons.2 ⟨fun e he => ?_, h⟩
      rcases List.mem_cons.1 he with rfl | he
      · exact hlt
      · exact String.lt_trans hlt (hhd e he)
    next hlt =>
      split
      next heq =>
        subst heq
        exact List.pairwise_cons.2 ⟨fun e he => hhd e he, htl⟩
      next hne =>
        refine List.pairwise_cons.2 ⟨fun e he => ?_, ih htl⟩
        rcases mem_insertEntry he with rfl | he
        · exact lt_of_not_lt_of_ne hlt hne
        · exact hhd e he

theorem lookupEntry_insertEntry (k k' : String) (v : α) (l : List (String × α)) :
    lookupEntry k' (insertEntry k v l) = if k' = k then some v else lookupEntry k' l := by
  induction l with
  | nil => simp [insertEntry, lookupEntry]
  | cons hd tl ih =>
    simp only [insertEntry]
    split
    · simp [lookupEntry]
    · split
      next heq => subst heq; simp only [lookupEntry]; split <;> simp_all
      next hne =>
        simp only [lookupEntry, ih]
        split
        next heq => rw [if_neg fun h : k' = k => hne (h.symm.trans heq)]
        next => rfl

theorem lookupEntry_eq_none_of_lt {k : String} {l : List (String × α)}
    (h : ∀ e ∈ l, k < e.1) : lookupEntry k l = none := by
  induction l with
  | nil => rfl
  | cons hd tl ih =>
    have hne : k ≠ hd.1 := fun heq => String.lt_irrefl hd.1 (heq ▸ h hd List.mem_cons_self)
    simp [lookupEntry, hne, ih fun e he => h e (List.mem_cons_of_mem _ he)]

theorem mem_of_lookupEntry {k : String} {v : α} {l : List (String × α)}
    (h : lookupEntry k l = some v) : (k, v) ∈ l := by
  induction l with
  | nil => simp [lookupEntry] at h
  | cons hd tl ih =>
    simp only [lookupEntry] at h
    split at h
    next heq => cases h; exact heq ▸ List.mem_cons_self
    next => exact List.mem_cons_of_mem _ (ih h)

theorem lookupEntry_of_mem {k : String} {v : α} {l : List (String × α)}
    (hl : l.Pairwise (fun a b => a.1 < b.1)) (h : (k, v) ∈ l) : lookupEntry k l = some v := by
  induction l with
  | nil => cases h
  | cons hd tl ih =>
    obtain ⟨hhd, htl⟩ := List.pairwise_cons.1 hl
    rcases List.mem_cons.1 h with h | h
    · simp [lookupEntry, ← h]
    · have hlt : hd.1 < k := hhd _ h
      have hne : k ≠ hd.1 := fun heq => String.lt_irrefl k (heq ▸ hlt)
      simp [lookupEntry, hne, ih htl h]

/-- An ascending list may be read from either end. -/
theorem lookupEntry_reverse {k : String} {l : List (String × α)}
    (hl : l.Pairwise (fun a b => a.1 < b.1)) : lookupEntry k l.reverse = lookupEntry k l := by
  have hmem : ∀ l' : List (String × α), lookupEntry k l' = none → ∀ v, (k, v) ∉ l' := by
    intro l' h v hv
    induction l' with
    | nil => cases hv
    | cons hd tl ih =>
      simp only [lookupEntry] at h
      split at h
      · cases h
      next hne =>
        rcases List.mem_cons.1 hv with hv | hv
        · exact hne (by rw [← hv])
        · exact ih h hv
  cases h : lookupEntry k l.reverse with
  | some v => exact (lookupEntry_of_mem hl (List.mem_reverse.1 (mem_of_lookupEntry h))).symm
  | none =>
    cases h' : lookupEntry k l with
    | none => rfl
    | some v => exact absurd (List.mem_reverse.2 (mem_of_lookupEntry h')) (hmem _ h v)

/-- Ascending entry lists with the same lookups are equal. -/
theorem entries_ext {l₁ l₂ : List (String × α)}
    (h₁ : l₁.Pairwise (fun a b => a.1 < b.1)) (h₂ : l₂.Pairwise (fun a b => a.1 < b.1))
    (h : ∀ k, lookupEntry k l₁ = lookupEntry k l₂) : l₁ = l₂ := by
  induction l₁ generalizing l₂ with
  | nil =>
    cases l₂ with
    | nil => rfl
    | cons e l => simpa [lookupEntry] using h e.1
  | cons e₁ l₁ ih =>
    cases l₂ with
    | nil => simpa [lookupEntry] using h e₁.1
    | cons e₂ l₂ =>
      obtain ⟨hd₁, ht₁⟩ := List.pairwise_cons.1 h₁
      obtain ⟨hd₂, ht₂⟩ := List.pairwise_cons.1 h₂
      have hk : e₁.1 = e₂.1 := by
        refine Decidable.byContradiction fun hne => ?_
        rcases Decidable.em (e₁.1 < e₂.1) with hlt | hlt
        · have := h e₁.1
          rw [lookupEntry_eq_none_of_lt (l := e₂ :: l₂) (fun e he => by
            rcases List.mem_cons.1 he with rfl | he
            · exact hlt
            · exact String.lt_trans hlt (hd₂ e he))] at this
          simp [lookupEntry] at this
        · have hgt := lt_of_not_lt_of_ne hlt hne
          have := h e₂.1
          rw [lookupEntry_eq_none_of_lt (l := e₁ :: l₁) (fun e he => by
            rcases List.mem_cons.1 he with rfl | he
            · exact hgt
            · exact String.lt_trans hgt (hd₁ e he))] at this
          simp [lookupEntry] at this
      have hv : e₁.2 = e₂.2 := by
        have := h e₁.1
        simpa [lookupEntry, hk] using this
      have htail : l₁ = l₂ := by
        refine ih ht₁ ht₂ fun k => ?_
        rcases Decidable.em (k = e₁.1) with rfl | hne
        · rw [lookupEntry_eq_none_of_lt hd₁, hk, lookupEntry_eq_none_of_lt hd₂]
        · have := h k
          simpa [lookupEntry, hne, hk ▸ hne] using this
      rw [htail, show e₁ = e₂ from Prod.ext hk hv]

/-! ## §2. The map and its view. -/

/-- The map without entries. -/
def empty : NameMap α := ⟨[], .nil⟩

instance : EmptyCollection (NameMap α) := ⟨empty⟩
instance : Inhabited (NameMap α) := ⟨empty⟩

/-- The value under `k`, if there is one. -/
def get? (m : NameMap α) (k : String) : Option α := lookupEntry k m.entries

/-- Whether `k` has a value. -/
def contains (m : NameMap α) (k : String) : Bool := (m.get? k).isSome

/-- The map with `v` under `k`. -/
def insert (m : NameMap α) (k : String) (v : α) : NameMap α :=
  ⟨insertEntry k v m.entries, insertEntry_ascending k v m.ascending⟩

/-- The map without the key `k`. -/
def erase (m : NameMap α) (k : String) : NameMap α :=
  ⟨m.entries.filter (fun e => !(e.1 == k)), m.ascending.filter _⟩

/-- The keys, ascending. -/
def keys (m : NameMap α) : List String := m.entries.map Prod.fst

/-- The values, in the order of their keys. -/
def values (m : NameMap α) : List α := m.entries.map Prod.snd

/-- The number of entries. -/
def size (m : NameMap α) : Nat := m.entries.length

/-- The sum of a measure of the values. -/
def total (measure : α → Nat) (m : NameMap α) : Nat :=
  m.entries.foldr (fun e n => measure e.2 + n) 0

/-- Whether the map has no entry. -/
def isEmpty (m : NameMap α) : Bool := m.entries.isEmpty

/-- Apply `f` to every value. -/
def map (f : α → β) (m : NameMap α) : NameMap β :=
  ⟨m.entries.map fun e => (e.1, f e.2), List.pairwise_map.2 m.ascending⟩

/-- Keep the entries that satisfy `p`. -/
def filter (p : String → α → Bool) (m : NameMap α) : NameMap α :=
  ⟨m.entries.filter (fun e => p e.1 e.2), m.ascending.filter _⟩

/-- Enter pairs one after the other; the last of several with one key stays. -/
def insertAll (m : NameMap α) (pairs : List (String × α)) : NameMap α :=
  pairs.foldl (fun m e => m.insert e.1 e.2) m

/-- The map of a list of pairs, the last of several with one key. -/
def ofList (pairs : List (String × α)) : NameMap α := empty.insertAll pairs

/-- `upper` laid over `lower`: an entry of `upper` replaces the one of `lower`. -/
def overlay (lower upper : NameMap α) : NameMap α := lower.insertAll upper.entries

/-! ## §3. What each operation does to the view. -/

/-- Two maps with the same lookups are the same map. -/
theorem ext {m n : NameMap α} (h : ∀ k, m.get? k = n.get? k) : m = n := by
  cases m; cases n
  congr
  exact entries_ext ‹_› ‹_› h

@[simp] theorem get?_empty (k : String) : (empty : NameMap α).get? k = none := rfl

theorem get?_eq_some_iff {m : NameMap α} {k : String} {v : α} :
    m.get? k = some v ↔ (k, v) ∈ m.entries :=
  ⟨mem_of_lookupEntry, lookupEntry_of_mem m.ascending⟩

theorem get?_insert (m : NameMap α) (k k' : String) (v : α) :
    (m.insert k v).get? k' = if k' = k then some v else m.get? k' :=
  lookupEntry_insertEntry k k' v m.entries

theorem get?_erase (m : NameMap α) (k k' : String) :
    (m.erase k).get? k' = if k' = k then none else m.get? k' := by
  simp only [get?, erase]
  generalize m.entries = l
  induction l with
  | nil => simp [lookupEntry]
  | cons hd tl ih => grind [lookupEntry]

theorem get?_map (f : α → β) (m : NameMap α) (k : String) :
    (m.map f).get? k = (m.get? k).map f := by
  simp only [get?, map]
  generalize m.entries = l
  induction l with
  | nil => rfl
  | cons hd tl ih => simp only [List.map_cons, lookupEntry]; split <;> simp_all

theorem get?_insertAll (m : NameMap α) (pairs : List (String × α)) (k : String) :
    (m.insertAll pairs).get? k = (lookupEntry k pairs.reverse).or (m.get? k) := by
  have happ : ∀ (l : List (String × α)) (e : String × α),
      lookupEntry k (l ++ [e]) = (lookupEntry k l).or (if k = e.1 then some e.2 else none) := by
    intro l e
    induction l with
    | nil => simp [lookupEntry]
    | cons hd tl ih => simp only [List.cons_append, lookupEntry, ih]; split <;> simp
  induction pairs generalizing m with
  | nil => simp [insertAll, lookupEntry]
  | cons e pairs ih =>
    have : m.insertAll (e :: pairs) = (m.insert e.1 e.2).insertAll pairs := rfl
    rw [this, ih, List.reverse_cons, happ, get?_insert]
    cases lookupEntry k pairs.reverse <;> simp
    split <;> simp

theorem get?_overlay (lower upper : NameMap α) (k : String) :
    (lower.overlay upper).get? k = (upper.get? k).or (lower.get? k) := by
  rw [overlay, get?_insertAll, lookupEntry_reverse upper.ascending]
  rfl

theorem get?_filter (p : String → α → Bool) (m : NameMap α) (k : String) :
    (m.filter p).get? k = (m.get? k).filter (p k) := by
  have key : ∀ l : List (String × α), l.Pairwise (fun a b => a.1 < b.1) →
      lookupEntry k (l.filter fun e => p e.1 e.2) = (lookupEntry k l).filter (p k) := by
    intro l hl
    induction l with
    | nil => rfl
    | cons hd tl ih =>
      obtain ⟨hhd, htl⟩ := List.pairwise_cons.1 hl
      have hnone : k = hd.1 → lookupEntry k (tl.filter fun e => p e.1 e.2) = none := fun heq =>
        lookupEntry_eq_none_of_lt fun e he => heq ▸ hhd e ((List.mem_filter.1 he).1)
      simp only [List.filter_cons, lookupEntry]
      split <;> grind [lookupEntry]
  exact key _ m.ascending

theorem mem_entries_insertAll {m : NameMap α} {pairs : List (String × α)} {e : String × α}
    (h : e ∈ (m.insertAll pairs).entries) : e ∈ pairs ∨ e ∈ m.entries := by
  induction pairs generalizing m with
  | nil => exact .inr h
  | cons p pairs ih =>
    rcases ih (m := m.insert p.1 p.2) h with h | h
    · exact .inl (List.mem_cons_of_mem _ h)
    · rcases mem_insertEntry h with h | h
      · exact .inl (h ▸ List.mem_cons_self)
      · exact .inr h

/-- The entries of a map built from pairs are pairs it was built from. -/
theorem mem_entries_ofList {pairs : List (String × α)} {e : String × α}
    (h : e ∈ (ofList pairs).entries) : e ∈ pairs :=
  (mem_entries_insertAll h).resolve_right (by simp [empty])

end NameMap

/-! ## §4. Sets of names. -/

/-- A finite set of texts. -/
abbrev NameSet := NameMap Unit

namespace NameSet

/-- The set of the texts of a list. -/
def ofList (names : List String) : NameSet := NameMap.ofList (names.map fun n => (n, ()))

end NameSet

end TenantSync
