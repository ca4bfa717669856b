/-
  TenantSync.Proofs.Push.Refusal
  ──────────────────────────────
  **WHAT A PUSH REFUSES BEFORE IT BEGINS.**

  A configuration is refused for two reasons, each looked for only where the
  category is selected: a setting that the tenant does not have, or two
  installation keys that would be the same one.  The search for the second goes
  through the keys once and remembers identities; it finds something exactly if
  there are two keys to find (`sharedDescription?_isSome`).
-/
import TenantSync.Proofs.NameMap
import TenantSync.Push.Run

namespace TenantSync.Push

open Config

/-- A document sets a setting that is not in a table. -/
def SetsUnknown (table : List String) (c : Config) : Prop :=
  ∃ key, c.orgValues.contains key = true ∧ key ∉ table

/-- Two installation keys of a document have one identity. -/
def SharesIdentity (c : Config) : Prop :=
  ∃ first key second other, c.installationKeys.get? first = some key
    ∧ c.installationKeys.get? second = some other ∧ first ≠ second
    ∧ Store.keyIdentity first key = Store.keyIdentity second other

/-- The selected part of a document cannot be pushed. -/
def Unpushable (table : List String) (o : Options) (c : Config) : Prop :=
  (o.selected .orgValues = true ∧ SetsUnknown table c)
    ∨ (o.selected .installationKeys = true ∧ SharesIdentity c)

theorem unknownOrgValues_isEmpty {table : List String} {c : Config} :
    (unknownOrgValues table c).isEmpty = false ↔ SetsUnknown table c := by
  rw [List.isEmpty_eq_false_iff_exists_mem]
  unfold unknownOrgValues SetsUnknown NameMap.contains
  refine exists_congr fun key => ?_
  rw [List.mem_filter, NameMap.mem_keys, Option.isSome_iff_exists]
  simp

/-- The search finds a key of an identity seen before, or two of one identity
among those still to be seen. -/
theorem sharedDescription?_go (entries : List (String × InstallationKey)) :
    ∀ seen : NameMap String, entries.Pairwise (fun a b => a.1 < b.1) →
      ((sharedDescription?.go seen entries).isSome = true
        ↔ (∃ e ∈ entries, (seen.get? (Store.keyIdentity e.1 e.2)).isSome = true)
          ∨ ∃ a ∈ entries, ∃ b ∈ entries, a.1 ≠ b.1
              ∧ Store.keyIdentity a.1 a.2 = Store.keyIdentity b.1 b.2) := by
  induction entries with
  | nil =>
      intro seen _
      simp [sharedDescription?.go]
  | cons e rest ih =>
      intro seen hascending
      obtain ⟨name, key⟩ := e
      obtain ⟨hhead, hrest⟩ := List.pairwise_cons.1 hascending
      unfold sharedDescription?.go
      simp only
      cases hseen : seen.get? (Store.keyIdentity name key) with
      | some first =>
          simp only [Option.isSome_some, true_iff]
          exact .inl ⟨(name, key), List.mem_cons_self, by rw [hseen]; rfl⟩
      | none =>
          simp only
          rw [ih _ hrest]
          -- an identity is remembered if it was before or is that of the first key
          have hinsert : ∀ id,
              ((seen.insert (Store.keyIdentity name key) name).get? id).isSome = true
                ↔ id = Store.keyIdentity name key ∨ (seen.get? id).isSome = true := by
            intro id
            rw [NameMap.get?_insert]
            by_cases hid : id = Store.keyIdentity name key <;> simp [hid]
          simp only [hinsert]
          constructor
          · -- of a key like the first one, the first one is the other of the two
            rintro (⟨e, he, heq | hsome⟩ | ⟨a, ha, b, hb, hne, heq⟩)
            · refine .inr ⟨(name, key), List.mem_cons_self, e, List.mem_cons_of_mem _ he, ?_,
                heq.symm⟩
              intro hname
              have hlt : name < e.1 := hhead e he
              rw [← show name = e.1 from hname] at hlt
              exact String.lt_irrefl name hlt
            · exact .inl ⟨e, List.mem_cons_of_mem _ he, hsome⟩
            · exact .inr ⟨a, List.mem_cons_of_mem _ ha, b, List.mem_cons_of_mem _ hb, hne, heq⟩
          · rintro (⟨e, he, hsome⟩ | ⟨a, ha, b, hb, hne, heq⟩)
            · rcases List.mem_cons.1 he with rfl | he
              · rw [hseen] at hsome
                cases hsome
              · exact .inl ⟨e, he, .inr hsome⟩
            · rcases List.mem_cons.1 ha with rfl | ha
              · rcases List.mem_cons.1 hb with rfl | hb
                · exact absurd rfl hne
                · exact .inl ⟨b, hb, .inl heq.symm⟩
              · rcases List.mem_cons.1 hb with rfl | hb
                · exact .inl ⟨a, ha, .inl heq⟩
                · exact .inr ⟨a, ha, b, hb, hne, heq⟩

theorem sharedDescription?_isSome {c : Config} :
    (sharedDescription? c).isSome = true ↔ SharesIdentity c := by
  unfold sharedDescription?
  rw [sharedDescription?_go _ _ c.installationKeys.ascending]
  constructor
  · rintro (⟨e, -, hsome⟩ | ⟨a, ha, b, hb, hne, heq⟩)
    · cases hsome
    · exact ⟨a.1, a.2, b.1, b.2, NameMap.get?_eq_some_iff.2 ha, NameMap.get?_eq_some_iff.2 hb,
        hne, heq⟩
  · rintro ⟨first, key, second, other, hfirst, hsecond, hne, heq⟩
    exact .inr ⟨(first, key), NameMap.get?_eq_some_iff.1 hfirst, (second, other),
      NameMap.get?_eq_some_iff.1 hsecond, hne, heq⟩

/-- **Exactly what cannot be pushed is found to be invalid.** -/
theorem invalid?_isSome {table : List String} {c : Config} {o : Options} :
    (invalid? table c o).isSome = true ↔ Unpushable table o c := by
  unfold invalid? Unpushable
  -- settings are looked at first, so keys only count where no setting is unknown
  cases horg : o.selected .orgValues with
  | false =>
      cases hkeys : o.selected .installationKeys with
      | false => simp
      | true => simpa using sharedDescription?_isSome
  | true =>
      simp only [if_true, true_and]
      cases hunknown : (unknownOrgValues table c).isEmpty with
      | false => simp [unknownOrgValues_isEmpty.1 hunknown]
      | true =>
          have hnot : ¬SetsUnknown table c := by
            rw [← unknownOrgValues_isEmpty, hunknown]
            simp
          cases hkeys : o.selected .installationKeys with
          | false => simp [hnot]
          | true => simpa [hnot] using sharedDescription?_isSome

theorem invalid?_eq_none {table : List String} {c : Config} {o : Options} :
    invalid? table c o = none ↔ ¬Unpushable table o c := by
  rw [← invalid?_isSome]
  cases invalid? table c o <;> simp

end TenantSync.Push
