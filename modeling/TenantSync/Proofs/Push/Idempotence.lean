/-
  TenantSync.Proofs.Push.Idempotence
  ──────────────────────────────────
  **A PUSH THAT SUCCEEDED HAS NOTHING LEFT TO DO.**

  A pass is settled in a state if it would decide to keep everything there:

      desired            held, and with the desired content where the mode
                         replaces what differs
      held, not desired  only where the mode does not remove

  A pass that was made without a failure leaves a state in which it is settled
  (`settled_of_run`): what it created or replaced reads back as stored, with the
  content it was desired with; what it kept it would keep again.  A settled pass
  makes no call but the listing.  So a push that is repeated finds every stage of
  its schedule settled, whatever the mode, and leaves the state exactly as it is.
-/
import TenantSync.Proofs.Push.DryRun

namespace TenantSync.Push

open Config Tenant

/-! ## §1. Settled passes. -/

namespace Pass

/-- In a state, the pass would decide to keep everything. -/
def Settled (table : List String) (mode : Mode) (c : Config) (p : Pass) (s : State) : Prop :=
  ∀ d ∈ p.decisions table mode c s, d = .keep d.id

variable {table : List String} {mode : Mode} {c : Config} {p : Pass} {t t' : Tenant}

/-- Whether a pass is settled depends on its slice only. -/
theorem Settled.congr {s s' : State} (h : p.Settled table mode c s) (hsame : p.SameAt s s') :
    p.Settled table mode c s' := by
  unfold Settled decisions
  rw [hsame.listed]
  exact h

/-- Settings are listed only if they are in the table. -/
theorem mem_table_of_listed {s : State} {name : String} {r : Remote p.Body}
    (h : (p.listed table s).get? (p.label name) = some r) :
    p = .orgValues → p.label name ∈ table := by
  rintro rfl
  have hshown : (shownSettings s table .empty).get? name = some r := h
  rw [get?_shownSettings, NameMap.get?_empty] at hshown
  by_cases hname : name ∈ table
  · exact hname
  · rw [if_neg hname] at hshown
    cases hshown

/-- **A pass that had no failure is settled where it ended**, in every mode. -/
theorem settled_of_run {o : Outcome} (hp : p.ByName) (hcovered : p.Covered table c)
    (hdry : mode.dryRun = false) (hshown : t.faults.SettingsShown)
    (h : exec (p.run table mode c) t = (.ok o, t')) (hok : o.failures = []) :
    p.Settled table mode c t'.state := by
  obtain ⟨logged, -, htold⟩ := told_of_run hp hcovered hdry hshown h
  have hops := operations_of_run hshown h
  intro d hd
  rcases (mem_decisions hp.2).1 hd with ⟨name, body, hdesired, rfl⟩ | ⟨name, r, hlisted, hnot, rfl⟩
  · -- what is desired is held now, and so it is listed
    obtain ⟨r, hr, hsame⟩ := held_of_desired htold hops hok hp.2 hdesired
    have htable : p = .orgValues → p.label name ∈ table := by
      rintro rfl
      exact mem_table_of_desired hcovered hdesired
    rw [listed_of_view htable ((view_label p t'.state name).trans hr)]
    cases hmode : mode.replacesDrift with
    | true => rw [decision_same (hsame hmode), Decision.id]
    | false => rw [decision_tolerated hmode, Decision.id]
  · -- what is not desired would have been removed under force
    unfold dismissal
    cases hforce : mode.force with
    | false => rfl
    | true =>
        have hgone := held_of_not_desired htold hops hok hp.2 hforce
          (mem_table_of_listed hlisted) hnot
        rw [← view_label, view_of_listed hlisted] at hgone
        cases hgone

/-- A settled pass lists its store, keeps everything and changes nothing. -/
theorem run_settled (hquiet : t.faults.Quiet) (h : p.Settled table mode c t.state) :
    ∃ o t', exec (p.run table mode c) t = (.ok o, t') ∧ o.failures = []
      ∧ (∀ op ∈ o.operations, op.isNoop = true) ∧ t'.state = t.state ∧ t'.log = t.log := by
  rw [run_eq, exec_reconcile]
  rcases hfetch : exec (p.store table).fetch t with ⟨r, t₁⟩
  have hshows := p.shows_fetch table hfetch
  obtain rfl := hshows.quiet hquiet
  refine ⟨⟨(p.decisions table mode c t.state).map (Decision.operation (p.store table).element),
    []⟩, t₁, ?_, rfl, fun op hop => ?_, hshows.state, hshows.log⟩
  · show (Except.ok (execState (enactAll _ mode (p.decisions table mode c t.state)) t₁).1,
      (execState (enactAll _ mode (p.decisions table mode c t.state)) t₁).2) = _
    rw [enactAll_kept (p.store table) mode _ h t₁]
  obtain ⟨d, hd, rfl⟩ := List.mem_map.1 hop
  rw [h d hd]
  rfl

end Pass

/-! ## §2. Settled stages. -/

namespace Stage

/-- In a state, the stage would change nothing. -/
def Settled (table : List String) (mode : Mode) (c : Config) (s : State) : Stage → Prop
  | .namespaces => True
  | .pass p => p.Settled table mode c s

variable {table : List String} {mode : Mode} {c : Config} {stage : Stage} {t : Tenant}

theorem run_settled (hquiet : t.faults.Quiet) (h : stage.Settled table mode c t.state) :
    ∃ o t', exec (stage.run table mode c) t = (.ok o, t') ∧ o.failures = []
      ∧ (∀ op ∈ o.operations, op.isNoop = true) ∧ t'.state = t.state ∧ t'.log = t.log := by
  cases stage with
  | namespaces =>
      obtain ⟨o, t', hrun⟩ := run_quiet table mode c .namespaces hquiet
      obtain ⟨rfl, hstate, hlog⟩ := run_namespaces_ok hrun
      exact ⟨{}, t', hrun, rfl, (fun op hop => nomatch hop), hstate, hlog⟩
  | pass p => exact Pass.run_settled hquiet h

end Stage

section Runs

variable {table : List String} {mode : Mode} {c : Config}

/-- Stages that are all settled are run to the end, and come to nothing. -/
theorem runStages_settled (sts : List Stage) :
    ∀ {t : Tenant} (operations : List Operation), t.faults.Quiet →
      (∀ stage ∈ sts, stage.Settled table mode c t.state) →
      ∃ kept t', exec (runStages table mode c sts operations) t = (.ok (operations ++ kept), t')
        ∧ (∀ op ∈ kept, op.isNoop = true) ∧ t'.state = t.state ∧ t'.log = t.log := by
  induction sts with
  | nil =>
      intro t operations _ _
      exact ⟨[], t, by rw [List.append_nil]; rfl, (fun op hop => nomatch hop), rfl, rfl⟩
  | cons stage sts ih =>
      intro t operations hquiet hsettled
      obtain ⟨o, t₁, hrun, hnone, hnoop, hstate, hlog⟩ :=
        Stage.run_settled hquiet (hsettled stage List.mem_cons_self)
      have hconfined := stage.run_confined table mode c t
      rw [hrun] at hconfined
      -- the state is the same, so the other stages are still settled
      have hrest : ∀ stage' ∈ sts, stage'.Settled table mode c t₁.state := by
        intro stage' hstage'
        rw [hstate]
        exact hsettled stage' (List.mem_cons_of_mem _ hstage')
      obtain ⟨kept, t', hruns, hkept, hstate', hlog'⟩ :=
        ih (operations ++ o.operations) (hquiet.weaker hconfined.weaker) hrest
      refine ⟨o.operations ++ kept, t', ?_, fun op hop => ?_, hstate'.trans hstate,
        hlog'.trans hlog⟩
      · rw [runStages_cons, exec_bind, hrun]
        show exec (conclude o operations >>= runStages table mode c sts) t₁ = _
        rw [conclude_ok hnone, pure_bind, hruns, List.append_assoc]
      · rcases List.mem_append.1 hop with hop | hop
        · exact hnoop op hop
        · exact hkept op hop

end Runs

/-! ## §3. The push. -/

/-- After a push that succeeded, every stage of its schedule is settled. -/
theorem settled_of_push {table : List String} {o : Options} {c : Config} {t t' : Tenant}
    {operations : List Operation} (hresources : o.selected .resources = false)
    (hkeys : o.selected .installationKeys = false) (hdry : o.mode.dryRun = false)
    (hshown : t.faults.SettingsShown)
    (h : exec (pushWith table o c) t = (.ok operations, t')) :
    ∀ stage ∈ schedule o c t'.state, stage.Settled table o.mode c t'.state := by
  rcases push_cases h with ⟨-, hr, -⟩ | ⟨-, -, ⟨why, hr⟩, -⟩ | ⟨-, hpushable, hfinish⟩
  · cases hr
  · cases hr
  · cases hfinish with
    | completed visits hsts hran hclean =>
        have hnodup := schedule_nodup o c t.state
        -- no namespace was made or dropped, so the schedule is still the same
        have hschedule : schedule o c t'.state = schedule o c t.state := by
          unfold schedule
          rw [stages_congr c hran.confined.namespaces]
        intro stage hstage
        cases stage with
        | namespaces => trivial
        | pass p =>
            rw [hschedule] at hstage
            have hselected := selected_of_mem_schedule hstage
            have hp : p.ByName := by
              constructor
              · rintro rfl
                cases hresources.symm.trans hselected
              · rintro rfl
                cases hkeys.symm.trans hselected
            rw [hsts] at hstage hnodup
            obtain ⟨v, hv, hvp⟩ := List.mem_map.1 hstage
            obtain ⟨t₁, t₂, hrun, -, -, hafter, hweaker⟩ := hran.visit hnodup hv hvp
            exact (Pass.settled_of_run hp (covered_of_pushable hpushable hselected) hdry
              (hshown.weaker hweaker) hrun (hclean v hv)).congr hafter

/-- **A push that succeeded is idempotent**, in every mode.  Repeated, at whatever
time, it succeeds, reports only elements that are kept, makes no mutation and
leaves the state as it is, down to identifiers and times. -/
theorem push_idempotent (table : List String) (o : Options) (c : Config) {t t' : Tenant}
    {operations : List Operation} (hresources : o.selected .resources = false)
    (hkeys : o.selected .installationKeys = false) (hdry : o.mode.dryRun = false)
    (hquiet : t.faults.Quiet) (h : exec (pushWith table o c) t = (.ok operations, t'))
    (later : Timestamp) :
    ∃ kept t'', exec (pushWith table o c) { t' with now := later } = (.ok kept, t'')
      ∧ (∀ op ∈ kept, op.isNoop = true) ∧ t''.state = t'.state ∧ t''.log = t'.log := by
  have hsettled := settled_of_push hresources hkeys hdry hquiet.settingsShown h
  rcases push_cases h with ⟨-, hr, -⟩ | ⟨-, -, ⟨why, hr⟩, -⟩ | ⟨hne, hpushable, hfinish⟩
  · cases hr
  · cases hr
  · have hquiet' : t'.faults.Quiet := by
      cases hfinish with
      | completed visits hsts hran hclean => exact hquiet.weaker hran.confined.weaker
    -- what was not refused the first time is not refused now
    rw [exec_pushWith, if_neg (fun hempty => hne (List.isEmpty_iff.1 hempty)),
      invalid?_eq_none.2 hpushable]
    exact runStages_settled (t := { t' with now := later }) _ [] hquiet' hsettled

/-- Drift and foreign elements are kept twice, what was missing is added once. -/
theorem push_idempotent_additive :
    let o : Options := ⟨{}, fun c => c == .falsePositives⟩
    let c : Config :=
      { falsePositives := (NameMap.empty.insert "a" ⟨.ofValue (.bool true)⟩).insert "b" {} }
    let t : Tenant :=
      { state := { falsePositives := (NameMap.empty.insert "a" ⟨{}, {}⟩).insert "z" ⟨{}, {}⟩ }
        now := ⟨0, 0⟩ }
    let first := exec (pushWith [] o c) t
    first.1 = .ok [.keep .falsePositive "a", .add .falsePositive "b", .keep .falsePositive "z"]
      ∧ ∃ kept t'', exec (pushWith [] o c) { first.2 with now := ⟨1, 0⟩ } = (.ok kept, t'')
          ∧ (∀ op ∈ kept, op.isNoop = true) ∧ t''.state = first.2.state
          ∧ t''.log = first.2.log := by
  intro o c t first
  have hok : first.1
      = .ok [.keep .falsePositive "a", .add .falsePositive "b", .keep .falsePositive "z"] := rfl
  have hfirst : exec (pushWith [] o c) t = (first.1, first.2) := rfl
  rw [hok] at hfirst
  exact ⟨hok, push_idempotent [] o c (t := t) rfl rfl rfl Faults.quiet_empty hfirst ⟨1, 0⟩⟩

end TenantSync.Push
