/-
  TenantSync.Proofs.Push.Abort
  ────────────────────────────
  **A PUSH STOPS WHERE IT SAYS IT STOPS.**

  What can be known to be wrong without the tenant is found out first, and then
  the tenant is left exactly as it is, its faults and their counts included.
  Everything else is a run of the schedule: visits in its order, each beginning
  where the last one ended, up to the first stage that cannot be listed or has a
  failure.  The tenant that is left is the one which that stage left, so no call
  of a later stage was made.
-/
import TenantSync.Proofs.Push.Course

namespace TenantSync.Push

open Config Tenant

theorem categories_eq_nil {o : Options} :
    o.categories = [] ↔ ∀ category, o.selected category = false := by
  rw [List.eq_nil_iff_forall_not_mem]
  refine forall_congr' fun category => ?_
  rw [mem_categories, Bool.not_eq_true]

theorem categories_ne_nil {o : Options} :
    o.categories ≠ [] ↔ ∃ category, o.selected category = true := by
  rw [Ne, categories_eq_nil]
  constructor
  · intro h
    refine Classical.byContradiction fun hnone => h fun category => ?_
    cases hselected : o.selected category with
    | false => rfl
    | true => exact absurd ⟨category, hselected⟩ hnone
  · rintro ⟨category, hselected⟩ h
    rw [h category] at hselected
    cases hselected

/-- A schedule that was begun does not fail for what is found out before. -/
theorem Finish.reachedTenant {table : List String} {mode : Mode} {c : Config} {sts : List Stage}
    {t t' : Tenant} {e : Error} (h : Finish table mode c sts t (.error e) t') :
    e.reachedTenant = true := by
  cases h <;> rfl

/-- **The discipline of a push.**  Nothing selected and a configuration that cannot
be pushed are each told exactly when they are so, and before any call; otherwise
the schedule is run up to its first stage that cannot be listed or has a failure. -/
theorem push_abort (table : List String) (o : Options) (c : Config) (t : Tenant) :
    ((exec (pushWith table o c) t).1 = .error .nothingSelected
        ↔ ∀ category, o.selected category = false)
    ∧ ((∃ why, (exec (pushWith table o c) t).1 = .error (.invalid why))
        ↔ (∃ category, o.selected category = true) ∧ Unpushable table o c)
    ∧ ((∀ category, o.selected category = false) ∨ Unpushable table o c →
        (exec (pushWith table o c) t).2 = t)
    ∧ ((∃ category, o.selected category = true) → ¬Unpushable table o c →
        Finish table o.mode c (schedule o c t.state) t
          (exec (pushWith table o c) t).1 (exec (pushWith table o c) t).2) := by
  rcases hpush : exec (pushWith table o c) t with ⟨r, t'⟩
  simp only [← categories_eq_nil, ← categories_ne_nil]
  -- the three ways a push can go exclude each other, by what was selected and configured
  rcases push_cases hpush with ⟨hnil, rfl, rfl⟩ | ⟨hne, hun, ⟨why, rfl⟩, rfl⟩ | ⟨hne, hok, hfinish⟩
  · refine ⟨by simp [hnil], ?_, fun _ => rfl, fun hne => absurd hnil hne⟩
    constructor
    · rintro ⟨why, hwhy⟩
      cases hwhy
    · exact fun h => absurd hnil h.1
  · refine ⟨?_, ⟨fun _ => ⟨hne, hun⟩, fun _ => ⟨why, rfl⟩⟩, fun _ => rfl,
      fun _ hok => absurd hun hok⟩
    constructor
    · intro h
      cases h
    · exact fun hnil => absurd hnil hne
  · refine ⟨⟨fun h => ?_, fun hnil => absurd hnil hne⟩, ⟨?_, fun h => absurd h.2 hok⟩, ?_,
      fun _ _ => hfinish⟩
    · subst h
      cases hfinish.reachedTenant
    · rintro ⟨why, rfl⟩
      cases hfinish.reachedTenant
    · rintro (hnil | hun)
      · exact absurd hnil hne
      · exact absurd hun hok

end TenantSync.Push
