/-
  TenantSync.Proofs.Related
  ─────────────────────────
  **MAPS THAT AGREE NAME BY NAME.**

  Two maps are related by `R` if they have the same names, and under each name
  values that `R` relates.  Whatever is done to both alike leaves them related:
  entering related values, taking a name out, filtering by something that `R` does
  not see.  Maps that are related list their entries in one order, entry by entry
  related, so an induction over one list is an induction over both.
-/
import Mathlib.Data.List.Forall2
import TenantSync.Proofs.NameMap

namespace TenantSync.NameMap

variable {α β γ : Type} {R : α → β → Prop} {m : NameMap α} {n : NameMap β}

/-! ## §1. Relations of maps. -/

section Options

variable {x : Option α} {y : Option β}

theorem optionRel_refl {R : α → α → Prop} (hrefl : ∀ a, R a a) (x : Option α) :
    Option.Rel R x x := by
  cases x with
  | none => exact .none
  | some a => exact .some (hrefl a)

theorem optionRel_symm {Q : β → α → Prop} (hsymm : ∀ {a b}, R a b → Q b a)
    (h : Option.Rel R x y) : Option.Rel Q y x := by
  cases h with
  | none => exact .none
  | some hab => exact .some (hsymm hab)

theorem optionRel_trans {Q : β → γ → Prop} {P : α → γ → Prop} {z : Option γ}
    (htrans : ∀ a b c, R a b → Q b c → P a c) (h : Option.Rel R x y) (h' : Option.Rel Q y z) :
    Option.Rel P x z := by
  cases h with
  | none =>
      cases h'
      exact .none
  | some hab =>
      cases h' with
      | some hbc => exact .some (htrans _ _ _ hab hbc)

theorem optionRel_mono {Q : α → β → Prop} (hmono : ∀ {a b}, R a b → Q a b)
    (h : Option.Rel R x y) : Option.Rel Q x y := by
  cases h with
  | none => exact .none
  | some hab => exact .some (hmono hab)

/-- Either there is nothing in both, or something that is related. -/
theorem optionRel_cases (h : Option.Rel R x y) :
    (x = none ∧ y = none) ∨ ∃ a b, x = some a ∧ y = some b ∧ R a b := by
  cases h with
  | none => exact .inl ⟨rfl, rfl⟩
  | some hab => exact .inr ⟨_, _, rfl, rfl, hab⟩

end Options

/-- The same names, with related values under them. -/
def Related (R : α → β → Prop) (m : NameMap α) (n : NameMap β) : Prop :=
  ∀ k, Option.Rel R (m.get? k) (n.get? k)

namespace Related

/-- Under a name both hold nothing, or related values. -/
theorem get? (h : Related R m n) (k : String) :
    (m.get? k = none ∧ n.get? k = none)
      ∨ ∃ a b, m.get? k = some a ∧ n.get? k = some b ∧ R a b := optionRel_cases (h k)

theorem refl {R : α → α → Prop} (hrefl : ∀ a, R a a) (m : NameMap α) : Related R m m :=
  fun _ => optionRel_refl hrefl _

theorem symm {Q : β → α → Prop} (hsymm : ∀ {a b}, R a b → Q b a) (h : Related R m n) :
    Related Q n m := fun k => optionRel_symm hsymm (h k)

theorem trans {Q : β → γ → Prop} {P : α → γ → Prop} {l : NameMap γ}
    (htrans : ∀ a b c, R a b → Q b c → P a c) (h : Related R m n) (h' : Related Q n l) :
    Related P m l := fun k => optionRel_trans htrans (h k) (h' k)

theorem mono {Q : α → β → Prop} (hmono : ∀ {a b}, R a b → Q a b) (h : Related R m n) :
    Related Q m n := fun k => optionRel_mono hmono (h k)

/-- Maps related by equality are one map. -/
theorem eq {m n : NameMap α} (h : Related Eq m n) : m = n := by
  refine NameMap.ext fun k => ?_
  rcases h.get? k with ⟨hm, hn⟩ | ⟨a, b, hm, hn, hab⟩
  · rw [hm, hn]
  · rw [hm, hn, hab]

/-! ## §2. What is done to both alike. -/

theorem empty : Related R .empty .empty := fun _ => .none

theorem insert {v : α} {w : β} (h : Related R m n) (hvw : R v w) (k : String) :
    Related R (m.insert k v) (n.insert k w) := by
  intro k'
  rw [get?_insert, get?_insert]
  by_cases hk : k' = k
  · rw [if_pos hk, if_pos hk]
    exact .some hvw
  · rw [if_neg hk, if_neg hk]
    exact h k'

theorem erase (h : Related R m n) (k : String) : Related R (m.erase k) (n.erase k) := by
  intro k'
  rw [get?_erase, get?_erase]
  by_cases hk : k' = k
  · rw [if_pos hk, if_pos hk]
    exact .none
  · rw [if_neg hk, if_neg hk]
    exact h k'

theorem filter {p : String → α → Bool} {q : String → β → Bool} (h : Related R m n)
    (hpq : ∀ {k a b}, R a b → p k a = q k b) : Related R (m.filter p) (n.filter q) := by
  intro k
  rw [get?_filter, get?_filter]
  rcases h.get? k with ⟨hm, hn⟩ | ⟨a, b, hm, hn, hab⟩
  · rw [hm, hn]
    exact .none
  · rw [hm, hn, Option.filter_some, Option.filter_some, hpq hab]
    split
    · exact .some hab
    · exact .none

/-! ## §3. What is seen of both alike. -/

theorem isSome (h : Related R m n) (k : String) : (m.get? k).isSome = (n.get? k).isSome := by
  rcases h.get? k with ⟨hm, hn⟩ | ⟨a, b, hm, hn, -⟩
  · rw [hm, hn]
    rfl
  · rw [hm, hn]
    rfl

theorem contains (h : Related R m n) (k : String) : m.contains k = n.contains k := h.isSome k

theorem keys (h : Related R m n) : m.keys = n.keys := keys_congr h.isSome

/-- Related maps list related entries, and each entry is what the map holds under its name. -/
theorem entries_held (h : Related R m n) :
    List.Forall₂ (fun e f => e.1 = f.1 ∧ R e.2 f.2 ∧ m.get? e.1 = some e.2 ∧ n.get? e.1 = some f.2)
      m.entries n.entries := by
  have hkeys : List.Forall₂ (fun e f => e.1 = f.1) m.entries n.entries := by
    have heq : List.Forall₂ Eq (m.entries.map Prod.fst) (n.entries.map Prod.fst) := by
      rw [List.forall₂_eq_eq_eq]
      exact h.keys
    rw [List.forall₂_map_left_iff, List.forall₂_map_right_iff] at heq
    exact heq
  -- two entries beside each other have one key, and the maps are related there
  rw [List.forall₂_iff_zip] at hkeys ⊢
  refine ⟨hkeys.1, ?_⟩
  intro e f hzip
  obtain ⟨he, hf⟩ := List.of_mem_zip hzip
  have hkey : e.1 = f.1 := hkeys.2 hzip
  have hm : m.get? e.1 = some e.2 := get?_eq_some_iff.2 he
  have hn : n.get? e.1 = some f.2 := by
    rw [hkey]
    exact get?_eq_some_iff.2 hf
  have hvalue := h e.1
  rw [hm, hn] at hvalue
  cases hvalue with
  | some hvalue => exact ⟨hkey, hvalue, hm, hn⟩

/-- Related maps list related entries. -/
theorem entries (h : Related R m n) :
    List.Forall₂ (fun e f => e.1 = f.1 ∧ R e.2 f.2) m.entries n.entries :=
  h.entries_held.imp fun _ _ hef => ⟨hef.1, hef.2.1⟩

theorem values (h : Related R m n) : List.Forall₂ R m.values n.values := by
  unfold NameMap.values
  rw [List.forall₂_map_left_iff, List.forall₂_map_right_iff]
  exact h.entries.imp fun _ _ hef => hef.2

theorem isEmpty (h : Related R m n) : m.isEmpty = n.isEmpty := by
  have hlist : ∀ {l : List (String × α)} {l' : List (String × β)},
      List.Forall₂ (fun e f => e.1 = f.1 ∧ R e.2 f.2) l l' → l.isEmpty = l'.isEmpty := by
    intro l l' hl
    cases hl <;> rfl
  exact hlist h.entries

/-- Entering related pairs one after the other. -/
theorem insertAll {l : List (String × α)} {l' : List (String × β)}
    (hl : List.Forall₂ (fun e f => e.1 = f.1 ∧ R e.2 f.2) l l') :
    ∀ {m : NameMap α} {n : NameMap β}, Related R m n →
      Related R (m.insertAll l) (n.insertAll l') := by
  induction hl with
  | nil =>
      intro m n h
      exact h
  | @cons e f l l' hef _ ih =>
      intro m n h
      obtain ⟨hkey, hvalue⟩ := hef
      show Related R ((m.insert e.1 e.2).insertAll l) ((n.insert f.1 f.2).insertAll l')
      rw [← hkey]
      exact ih (h.insert hvalue e.1)

theorem ofList {l : List (String × α)} {l' : List (String × β)}
    (hl : List.Forall₂ (fun e f => e.1 = f.1 ∧ R e.2 f.2) l l') :
    Related R (NameMap.ofList l) (NameMap.ofList l') :=
  insertAll hl empty

end Related

end TenantSync.NameMap
