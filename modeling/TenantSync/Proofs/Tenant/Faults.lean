/-
  TenantSync.Proofs.Tenant.Faults
  ───────────────────────────────
  **FAULTS ONLY WEAR OFF.**

  A call counts against the fault attached to it and against no other one, and
  counting can only bring a fault closer to its limit.  Hence the one fact that
  runs of many calls need: a fault that answers a call later would have answered
  it now (`answer_of_answer_check`).  Whoever is not answered in a certain way at
  the beginning of a run is not answered so during all of it.
-/
import TenantSync.Proofs.NameMap
import TenantSync.Tenant.Faults

namespace TenantSync

/-! ## §1. One fault. -/

namespace Fault

variable (fault : Fault)

theorem counted_error : fault.counted.error = fault.error := by
  unfold counted
  split <;> rfl

theorem counted_limit : fault.counted.limit = fault.limit := by
  unfold counted
  split <;> rfl

/-- A counter goes up, or is full. -/
theorem toNat_calls_counted :
    fault.counted.calls.toNat = min (fault.calls.toNat + 1) 4294967295 := by
  have hlt := fault.calls.toNat_lt
  unfold counted
  split
  · next hfull => rw [hfull]; rfl
  · next hfull =>
    have hne : fault.calls.toNat ≠ 4294967295 := fun h => hfull (UInt32.toNat_inj.1 h)
    rw [UInt32.toNat_add]
    simp only [UInt32.reduceToNat]
    omega

/-- Without a limit a fault lasts, with one as long as another call is within it. -/
theorem lasts_iff : fault.lasts = true ↔ ∀ n ∈ fault.limit, fault.calls.toNat + 1 ≤ n.toNat := by
  unfold lasts
  cases fault.limit with
  | none => simp
  | some n =>
      have hlt : fault.calls < n ↔ fault.calls.toNat + 1 ≤ n.toNat := UInt32.lt_iff_toNat_lt
      simp [hlt]

variable {fault}

/-- A fault that lasts longer than one call lasts for this one. -/
theorem lasts_of_counted (h : fault.counted.lasts = true) : fault.lasts = true := by
  rw [lasts_iff, counted_limit, toNat_calls_counted] at h
  rw [lasts_iff]
  intro n hn
  have hcounted := h n hn
  have hlt := n.toNat_lt
  omega

end Fault

namespace Faults

/-- What a call is answered with, if it is made to fail. -/
def answer (f : Faults) (site : CallSite) : Option TenantError := (f.check site).1

/-! ## §2. One call. -/

/-- Taking the fault of one call away leaves those of all other calls. -/
theorem get?_detach (f : Faults) {site other : CallSite} (h : other ≠ site) :
    (f.detach site).get? other = f.get? other := by
  show List.lookup other (f.attached.filter fun e => e.1 != site) = List.lookup other f.attached
  exact NameMap.lookup_filter_of_ne h f.attached

/-- Taking the fault of a call away leaves it none. -/
theorem get?_detach_self (f : Faults) (site : CallSite) : (f.detach site).get? site = none := by
  show List.lookup site (f.attached.filter fun e => e.1 != site) = none
  rw [List.lookup_eq_none_iff]
  intro e he
  exact bne_iff_ne.2 (Ne.symm (bne_iff_ne.1 (List.mem_filter.1 he).2))

theorem get?_attach (f : Faults) (site other : CallSite) (fault : Fault) :
    (f.attach site fault).get? other = if other = site then some fault else f.get? other := by
  show List.lookup other ((site, fault) :: (f.detach site).attached) = _
  rw [List.lookup_cons]
  by_cases h : other = site
  · rw [if_pos h, beq_iff_eq.2 h]
  · rw [if_neg h, beq_false_of_ne h]
    exact get?_detach f h

/-- A call is answered by the fault attached to it, as long as that lasts. -/
theorem answer_eq (f : Faults) (site : CallSite) :
    f.answer site
      = (f.get? site).bind fun fault => if fault.lasts then some fault.error else none := by
  unfold answer check
  cases f.get? site <;> rfl

theorem get?_check (f : Faults) (site other : CallSite) :
    (f.check site).2.get? other
      = if other = site then (f.get? site).map Fault.counted else f.get? other := by
  unfold check
  cases hf : f.get? site with
  | none =>
      by_cases h : other = site
      · rw [if_pos h, h]
        exact hf
      · rw [if_neg h]
  | some fault => exact get?_attach f site other _

/-- A call leaves the faults of all other calls alone. -/
theorem get?_check_of_ne (f : Faults) {site other : CallSite} (h : other ≠ site) :
    (f.check site).2.get? other = f.get? other := by
  rw [get?_check, if_neg h]

/-! ## §3. Later calls. -/

/-- **Faults only wear off**: what answers a call after another call would have
answered it before. -/
theorem answer_of_answer_check {f : Faults} {site other : CallSite} {e : TenantError}
    (h : (f.check other).2.answer site = some e) : f.answer site = some e := by
  rw [answer_eq, get?_check] at h
  rw [answer_eq]
  by_cases hs : site = other
  · subst hs
    cases hf : f.get? site with
    | none => simp [hf] at h
    | some fault =>
        simp only [hf, if_true, Option.map_some, Option.bind_some, Option.ite_none_right_eq_some,
          Fault.counted_error] at h ⊢
        exact ⟨Fault.lasts_of_counted h.1, h.2⟩
  · rwa [if_neg hs] at h

/-- Every answer that faults give, other ones give too. -/
def Weaker (f f' : Faults) : Prop := ∀ site e, f'.answer site = some e → f.answer site = some e

theorem Weaker.refl (f : Faults) : Weaker f f := fun _ _ h => h

theorem Weaker.trans {f f' f'' : Faults} (h : Weaker f f') (h' : Weaker f' f'') : Weaker f f'' :=
  fun site e he => h site e (h' site e he)

theorem check_weaker (f : Faults) (site : CallSite) : Weaker f (f.check site).2 :=
  fun _ _ h => answer_of_answer_check h

/-! ## §4. Faults that stay away. -/

/-- No call is made to fail. -/
def Quiet (f : Faults) : Prop := ∀ site, f.answer site = none

/-- No reading of a setting is answered with its being not there. -/
def SettingsShown (f : Faults) : Prop :=
  ∀ what, f.answer ⟨.list, .orgValue⟩ ≠ some (.notFound what)

theorem Quiet.weaker {f f' : Faults} (h : f.Quiet) (hw : Weaker f f') : f'.Quiet := by
  intro site
  cases hs : f'.answer site with
  | none => rfl
  | some e =>
      have := hw site e hs
      rw [h site] at this
      cases this

theorem SettingsShown.weaker {f f' : Faults} (h : f.SettingsShown) (hw : Weaker f f') :
    f'.SettingsShown :=
  fun what hs => h what (hw _ _ hs)

theorem Quiet.settingsShown {f : Faults} (h : f.Quiet) : f.SettingsShown := by
  intro what hs
  rw [h] at hs
  cases hs

theorem quiet_empty : ({} : Faults).Quiet := fun _ => rfl

end Faults

end TenantSync
