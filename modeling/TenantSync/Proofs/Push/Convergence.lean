/-
  TenantSync.Proofs.Push.Convergence
  ──────────────────────────────────
  **A FORCED PUSH THAT SUCCEEDS LEAVES WHAT WAS DESIRED.**

  A push that may remove and replace, and succeeds, has made every pass of the
  selected categories without a failure.  Each of them converged when it was
  made, and no later one touched its slice; so every selected section is exactly
  the desired one, from whatever state the push began in.
-/
import TenantSync.Proofs.Push.Course

namespace TenantSync.Push

open Config Tenant

/-- A section holds exactly the desired names, each with the desired content. -/
def Holds {α : Type} (same : α → α → Bool) (held : NameMap (Remote α)) (desired : NameMap α) :
    Prop :=
  ∀ name, Pass.Agrees same (desired.get? name) (held.get? name)

/-- After a push that began in a state `s₀`, a state holds exactly what a document
desires of a category.  Of rules the namespaces in scope count, of settings those
of a table; what is not configured is not held, and a setting is empty then. -/
def HoldsDesired (table : List String) (c : Config) (s₀ s : State) : Category → Prop
  | .rules => ∀ ns ∈ scope c s₀,
      Holds Rule.sameContent ((s.rules.get? ns).getD .empty) (rulesOf c ns)
  | .falsePositives => Holds FalsePositive.sameContent s.falsePositives c.falsePositives
  | .outputs => Holds Output.sameContent s.outputs c.outputs
  | .integrity => Holds IntegrityRule.sameContent s.integrity c.integrity
  | .exfil => Holds ExfilWatch.sameContent s.exfilWatches c.exfil.watches
      ∧ Holds ExfilEvent.sameContent s.exfilEvents c.exfil.events
  | .artifacts => Holds ArtifactRule.sameContent s.artifacts c.artifacts
  | .yara => Holds YaraSource.sameContent s.yaraSources c.yara.sources
      ∧ Holds YaraRule.sameContent s.yaraRules c.yara.rules
  | .orgValues => ∀ key ∈ table, setting s key = (c.orgValues.get? key).getD ""
  | .resources | .installationKeys => True

/-! ## §1. From passes to sections. -/

section Sections

variable {table : List String} {c : Config} {s : State}

theorem holds_rules {ns : String} (h : Pass.Converged table c (.rules ns) s) :
    Holds Rule.sameContent ((s.rules.get? ns).getD .empty) (rulesOf c ns) := by
  intro name
  have hname := h name fun horg => nomatch horg
  have hheld : ((s.rules.get? ns).getD .empty).get? name = Pass.held (.rules ns) s name := by
    show _ = (s.rules.get? ns).bind fun rules => rules.get? name
    cases s.rules.get? ns <;> rfl
  rw [hheld]
  exact hname

/-- A setting has the value it is desired to have, and none else. -/
theorem setting_of_agrees {key : String} {desired : Option String}
    (h : Pass.Agrees (fun a b => a == b) desired (Pass.heldSetting s key)) :
    setting s key = desired.getD "" := by
  unfold Pass.heldSetting at h
  cases hempty : (setting s key).isEmpty with
  | true =>
      rw [hempty] at h
      cases desired with
      | none => exact String.isEmpty_iff.1 hempty
      | some value => exact h.elim
  | false =>
      rw [hempty] at h
      cases desired with
      | none => exact h.elim
      | some value => exact (beq_iff_eq.1 (show (value == setting s key) = true from h)).symm

/-- An empty value is not desired, which comes to the same as to desire it. -/
theorem getD_filter_nonempty (value : Option String) :
    (value.filter fun v => !v.isEmpty).getD "" = value.getD "" := by
  cases value with
  | none => rfl
  | some v =>
      cases hv : v.isEmpty with
      | true => simp [Option.filter, String.isEmpty_iff.1 hv]
      | false => simp [Option.filter, hv]

theorem setting_of_converged (h : Pass.Converged table c .orgValues s) {key : String}
    (hkey : key ∈ table) : setting s key = (c.orgValues.get? key).getD "" := by
  have hagrees : Pass.Agrees (fun a b : String => a == b) ((desiredOrgValues c).get? key)
      (Pass.heldSetting s key) := h key fun _ => hkey
  rw [setting_of_agrees hagrees, Pass.get?_desiredOrgValues, getD_filter_nonempty]

end Sections

/-! ## §2. The push. -/

/-- **Every pass of a forced push that succeeds has converged**, and still has in
the end. -/
theorem converged_of_push {table : List String} {o : Options} {c : Config} {t t' : Tenant}
    {operations : List Operation} (hdry : o.mode.dryRun = false) (hforce : o.mode.force = true)
    (hdrift : o.mode.drift = .replace) (hshown : t.faults.SettingsShown)
    (h : exec (pushWith table o c) t = (.ok operations, t')) {p : Pass} (hp : p.ByName)
    (hscheduled : .pass p ∈ schedule o c t.state) : p.Converged table c t'.state := by
  rcases push_cases h with ⟨-, hr, -⟩ | ⟨-, -, ⟨why, hr⟩, -⟩ | ⟨-, hpushable, hfinish⟩
  · cases hr
  · cases hr
  · cases hfinish with
    | completed visits hsts hran hclean =>
        have hnodup := schedule_nodup o c t.state
        have hselected := selected_of_mem_schedule hscheduled
        rw [hsts] at hscheduled hnodup
        obtain ⟨v, hv, hvp⟩ := List.mem_map.1 hscheduled
        -- the pass converged when it was made, and nothing touched its slice since
        obtain ⟨t₁, t₂, hrun, -, -, hafter, hweaker⟩ := hran.visit hnodup hv hvp
        have hconverged := Pass.converged_of_run hp (covered_of_pushable hpushable hselected) hdry
          hforce hdrift (hshown.weaker hweaker) hrun (hclean v hv)
        intro name htable
        rw [hafter.held]
        exact hconverged name htable

/-- **A forced push converges**: from whatever state and under whatever faults it
began, if it succeeds, every selected category is exactly as desired. -/
theorem force_converges (table : List String) (o : Options) (c : Config) {t t' : Tenant}
    {operations : List Operation} (hdry : o.mode.dryRun = false) (hforce : o.mode.force = true)
    (hdrift : o.mode.drift = .replace) (hshown : t.faults.SettingsShown)
    (h : exec (pushWith table o c) t = (.ok operations, t')) :
    ∀ category, o.selected category = true →
      HoldsDesired table c t.state t'.state category := by
  intro category hselected
  have hpass : ∀ {p : Pass}, p.ByName → .pass p ∈ stages c t.state category →
      p.Converged table c t'.state := fun hp hstage =>
    converged_of_push hdry hforce hdrift hshown h hp (mem_schedule hselected hstage)
  -- only settings are bound to a table
  have hplain : ∀ {p : Pass}, p ≠ .orgValues → p.ByName → .pass p ∈ stages c t.state category →
      ∀ name, Pass.Agrees (p.store table).same ((p.desired c).get? name) (p.held t'.state name) :=
    fun horg hp hstage name => hpass hp hstage name fun h => absurd h horg
  cases category with
  | rules =>
      intro ns hns
      refine holds_rules (hpass ⟨by simp, by simp⟩ ?_)
      exact List.mem_append_right _ (List.mem_map_of_mem hns)
  | orgValues =>
      intro key hkey
      exact setting_of_converged (hpass ⟨by simp, by simp⟩ List.mem_cons_self) hkey
  | falsePositives => exact hplain (by simp) ⟨by simp, by simp⟩ List.mem_cons_self
  | outputs => exact hplain (by simp) ⟨by simp, by simp⟩ List.mem_cons_self
  | integrity => exact hplain (by simp) ⟨by simp, by simp⟩ List.mem_cons_self
  | artifacts => exact hplain (by simp) ⟨by simp, by simp⟩ List.mem_cons_self
  | exfil =>
      exact ⟨hplain (by simp) ⟨by simp, by simp⟩ List.mem_cons_self,
        hplain (by simp) ⟨by simp, by simp⟩ (List.mem_cons_of_mem _ List.mem_cons_self)⟩
  | yara =>
      exact ⟨hplain (by simp) ⟨by simp, by simp⟩ List.mem_cons_self,
        hplain (by simp) ⟨by simp, by simp⟩ (List.mem_cons_of_mem _ List.mem_cons_self)⟩
  | resources => trivial
  | installationKeys => trivial

/-- A filter that differs is replaced, and an output that is not desired goes. -/
theorem force_converges_replaced_removed :
    let o : Options := ⟨{ force := true, drift := .replace },
      fun c => c == .falsePositives || c == .outputs⟩
    let c : Config := { falsePositives := NameMap.empty.insert "a" ⟨.ofValue (.bool true)⟩ }
    let t : Tenant :=
      { state := { falsePositives := NameMap.empty.insert "a" ⟨{}, {}⟩
                   outputs := NameMap.empty.insert "b" ⟨{}, {}⟩ }
        now := ⟨0, 0⟩ }
    let final := exec (pushWith [] o c) t
    final.1 = .ok [.replace .falsePositive "a", .remove .output "b"]
      ∧ ∀ category, o.selected category = true →
          HoldsDesired [] c t.state final.2.state category := by
  intro o c t final
  have hok : final.1 = .ok [.replace .falsePositive "a", .remove .output "b"] := by rfl
  have hshown : t.faults.SettingsShown := Faults.quiet_empty.settingsShown
  have hpush : final = (final.1, final.2) := (Prod.eta final).symm
  rw [hok] at hpush
  exact ⟨hok, force_converges [] o c rfl rfl rfl hshown hpush⟩

end TenantSync.Push
