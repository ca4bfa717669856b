/-
  TenantSync.Proofs.Push.Provenance
  ─────────────────────────────────
  **NOTHING COMES TO A TENANT BUT WHAT IS DESIRED.**

  Whatever a push returns and whichever calls fail, an element that a tenant
  holds in the end was held before, or has the body that the document asks for
  under its name:

      held after  ⟹  held before, as it is,  or  desired

  So what is true of all elements of a tenant and of all elements of a document
  stays true of the tenant.
-/
import TenantSync.Proofs.Push.DryRun
import TenantSync.Proofs.Push.Scope

namespace TenantSync.Push

open Config Tenant

/-- What is there in the end was there before, or is what was wanted. -/
theorem Ending.source {β : Type} {direct added removed failed : Bool} {wanted : Option β}
    {before : Option (Remote β)} {r : Remote β} {did : List MutationKind}
    (h : Ending direct wanted added removed failed before (some r) did) :
    before = some r ∨ wanted = some r.body := by
  cases h with
  | added hwanted => exact .inr hwanted
  | notRemoved => exact .inl rfl
  | replaced hwanted => exact .inr hwanted
  | notReplaced => exact .inl rfl
  | kept => exact .inl rfl

section Provenance

variable {table : List String} {mode : Mode} {c : Config} {p : Pass}

/-- What a tenant holds of a pass was held before, or is desired. -/
def Sourced (c : Config) (p : Pass) (s s' : State) : Prop :=
  ∀ name r, p.held s' name = some r →
    p.held s name = some r ∨ ((p.desired c).get? name).map (p.stored name) = some r.body

theorem Sourced.refl (c : Config) (p : Pass) (s : State) : Sourced c p s s :=
  fun _ _ h => .inl h

theorem Sourced.of_held {s s' : State} (h : p.held s' = p.held s) : Sourced c p s s' := by
  intro name r hr
  rw [h] at hr
  exact .inl hr

theorem Sourced.trans {s s' s'' : State} (h : Sourced c p s s') (h' : Sourced c p s' s'') :
    Sourced c p s s'' := by
  intro name r hr
  rcases h' name r hr with hr | hr
  · exact h name r hr
  · exact .inr hr

theorem Pass.Told.sourced {o : Outcome} {logged : List Mutation} {s s' : State}
    (h : Told c p o logged s s') : Sourced c p s s' := by
  intro name r hr
  by_cases hnamed : ∃ op ∈ o.operations, op.name = p.label name
  · obtain ⟨op, hop, hname⟩ := hnamed
    have hending := h.ending name op hop hname
    rw [hr] at hending
    exact hending.source
  · have hunnamed : ∀ op ∈ o.operations, op.name ≠ p.label name :=
      fun op hop hname => hnamed ⟨op, hop, hname⟩
    rw [h.unnamed name hunnamed] at hr
    exact .inl hr

/-- Every stage leaves a pass with what is sourced: its own by its account, and that of
other passes as it was. -/
theorem Stage.run_sourced (hp : p.ByName) {stage : Stage}
    (hcovered : stage = .pass p → p.Covered table c) {t : Tenant}
    (hshown : t.faults.SettingsShown) :
    Sourced c p t.state (exec (stage.run table mode c) t).2.state := by
  rcases hrun : exec (stage.run table mode c) t with ⟨e | o, t'⟩
  · obtain ⟨-, hstate, -⟩ := Stage.run_error hrun
    exact .of_held (by rw [hstate])
  · by_cases hstage : stage = .pass p
    · subst hstage
      cases hdry : mode.dryRun with
      | true =>
          obtain ⟨hstate, -, -⟩ := Stage.run_dry hdry hrun
          exact .of_held (by rw [hstate])
      | false =>
          obtain ⟨logged, -, htold⟩ := Pass.told_of_run hp (hcovered rfl) hdry hshown hrun
          exact htold.sourced
    · have hconfined := stage.run_confined table mode c t
      rw [hrun] at hconfined
      exact .of_held (hconfined.others p fun hmem => hstage (List.mem_singleton.1 hmem).symm).held

/-- **Nothing comes to a tenant but what is desired**, whatever a push returns. -/
theorem push_sourced (table : List String) (o : Options) (c : Config) {t : Tenant}
    (hp : p.ByName) (hshown : t.faults.SettingsShown) :
    Sourced c p t.state (exec (pushWith table o c) t).2.state := by
  -- what a stage keeps: settings stay shown, and what is held is sourced
  let R : Tenant → Tenant → Prop := fun t t' =>
    t.faults.SettingsShown → t'.faults.SettingsShown ∧ Sourced c p t.state t'.state
  have hkeeps : R t (exec (pushWith table o c) t).2 := by
    refine push_keeps (R := R) (fun t hshown => ⟨hshown, .refl c p t.state⟩) ?_ ?_
    · intro t t' t'' h h' hshown
      obtain ⟨hshown', hsourced⟩ := h hshown
      obtain ⟨hshown'', hsourced'⟩ := h' hshown'
      exact ⟨hshown'', hsourced.trans hsourced'⟩
    · intro hpushable stage hstage t₁ hshown
      refine ⟨hshown.weaker (stage.run_confined table o.mode c t₁).weaker,
        Stage.run_sourced hp (fun heq => covered_of_pushable hpushable ?_) hshown⟩
      rw [← heq]
      exact selected_of_mem_schedule hstage
  exact (hkeeps hshown).2

end Provenance

end TenantSync.Push
