/-
  TenantSync.Proofs.Push.DryRun
  ─────────────────────────────
  **A DRY RUN IS THE PLAN OF THE REAL ONE.**

  A dry run lists and decides like any other and makes no mutation.  What a real
  run decides in a stage depends on the slice of that stage alone, and no stage
  before it has touched the slice; so every stage decides what it would have
  decided at the beginning (`operationsOf_ran`), and that is what the dry run
  reports.  A real run that stops after a failure has reported the same
  operations up to there.
-/
import TenantSync.Proofs.Push.Course

namespace TenantSync.Push

open Config Tenant

/-- Options that differ at most in whether the run is dry. -/
def Options.withDryRun (o : Options) (dry : Bool) : Options :=
  { o with mode := { o.mode with dryRun := dry } }

/-! ## §1. What a stage decides. -/

namespace Stage

/-- The operations that a stage comes to in a state. -/
def operations (table : List String) (mode : Mode) (c : Config) (s : State) :
    Stage → List Operation
  | .namespaces => []
  | .pass p => (p.decisions table mode c s).map (Decision.operation p.element)

variable {table : List String} {mode : Mode} {c : Config} {stage : Stage} {t t' : Tenant}

theorem operations_dryRun (table : List String) (mode : Mode) (dry : Bool) (c : Config)
    (s : State) : operations table { mode with dryRun := dry } c s = operations table mode c s := by
  funext stage
  cases stage with
  | namespaces => rfl
  | pass p =>
      unfold operations Pass.decisions
      simp only
      rw [plan_dryRun]

/-- What a stage decides depends on its own slice only. -/
theorem operations_congr {s s' : State} (h : ∀ p, stage = .pass p → p.SameAt s s') :
    stage.operations table mode c s' = stage.operations table mode c s := by
  cases stage with
  | namespaces => rfl
  | pass p =>
      unfold operations Pass.decisions
      simp only
      rw [(h p rfl).listed]

theorem operations_of_run {o : Outcome} (hshown : t.faults.SettingsShown)
    (h : exec (stage.run table mode c) t = (.ok o, t')) :
    o.operations = stage.operations table mode c t.state := by
  cases stage with
  | namespaces =>
      obtain ⟨rfl, -, -⟩ := run_namespaces_ok h
      rfl
  | pass p => exact Pass.operations_of_run hshown h

/-- Where no call is made to fail, every stage can be listed. -/
theorem run_quiet (table : List String) (mode : Mode) (c : Config) (stage : Stage)
    (hquiet : t.faults.Quiet) : ∃ o t', exec (stage.run table mode c) t = (.ok o, t') := by
  cases stage with
  | namespaces =>
      rw [exec_run_namespaces, exec_namespaces, hquiet]
      cases c.rules.isEmpty with
      | false => exact ⟨_, _, rfl⟩
      | true => exact ⟨_, _, rfl⟩
  | pass p =>
      rw [show Stage.run table mode c (.pass p) = _ from p.run_eq table mode c, exec_reconcile]
      rcases hfetch : exec (p.store table).fetch t with ⟨r, t₁⟩
      obtain rfl := (p.shows_fetch table hfetch).quiet hquiet
      exact ⟨_, _, rfl⟩

/-- A stage of a dry run changes nothing and has no failure. -/
theorem run_dry (hdry : mode.dryRun = true) {r : Except Error Outcome}
    (h : exec (stage.run table mode c) t = (r, t')) :
    t'.state = t.state ∧ t'.log = t.log ∧ ∀ o, r = .ok o → o.failures = [] := by
  rcases r with e | o
  · obtain ⟨-, hstate, hlog⟩ := run_error h
    exact ⟨hstate, hlog, fun o ho => nomatch ho⟩
  · cases stage with
    | namespaces =>
        obtain ⟨rfl, hstate, hlog⟩ := run_namespaces_ok h
        refine ⟨hstate, hlog, fun o ho => ?_⟩
        cases ho
        rfl
    | pass p =>
        -- the listing only counts, and the plan is not carried out
        obtain ⟨held, t₁, hfetch, henact⟩ := Pass.run_ok h
        have hshows := p.shows_fetch table hfetch
        obtain ⟨hsame, hnone⟩ := enactAll_dry (p.store table) mode hdry
          (plan (p.store table) mode (p.desired c).entries held) t₁
        rw [henact] at hsame hnone
        simp only at hsame hnone
        subst hsame
        refine ⟨hshows.state, hshows.log, fun o ho => ?_⟩
        cases ho
        exact hnone

end Stage

/-! ## §2. What a run decides. -/

section Runs

variable {table : List String} {mode : Mode} {c : Config} {t t' : Tenant}

/-- **Every stage decides what it would have decided at the beginning.** -/
theorem operationsOf_ran {visits : List Visit} (h : Ran table mode c t visits t')
    (hnodup : (visits.map Visit.stage).Nodup) (hshown : t.faults.SettingsShown) :
    operationsOf visits
      = (visits.map Visit.stage).flatMap (Stage.operations table mode c t.state) := by
  induction h with
  | nil => rfl
  | @cons t t₁ t' v visits hrun hlog hrest ih =>
      obtain ⟨hnot, hnodup⟩ := List.nodup_cons.1 hnodup
      have hconfined := v.stage.run_confined table mode c t
      rw [hrun] at hconfined
      -- the stages behind the first are other ones, whose slices it left alone
      have hops : ∀ stage ∈ visits.map Visit.stage,
          stage.operations table mode c t₁.state = stage.operations table mode c t.state := by
        intro stage hstage
        refine Stage.operations_congr fun p hp => hconfined.others p fun hmem => hnot ?_
        rw [← List.mem_singleton.1 hmem, ← hp]
        exact hstage
      show v.outcome.operations ++ operationsOf visits = _
      rw [ih hnodup (hshown.weaker hconfined.weaker), Stage.operations_of_run hshown hrun,
        List.map_cons, List.flatMap_cons, List.flatMap_def, List.flatMap_def,
        List.map_congr_left hops]

/-- A dry run changes nothing. -/
theorem Ran.dry {visits : List Visit} (h : Ran table mode c t visits t')
    (hdry : mode.dryRun = true) :
    t'.state = t.state ∧ t'.log = t.log ∧ Clean visits := by
  induction h with
  | nil => exact ⟨rfl, rfl, fun v hv => nomatch hv⟩
  | cons hrun _ _ ih =>
      obtain ⟨hstate, hlog, hnone⟩ := Stage.run_dry hdry hrun
      refine ⟨ih.1.trans hstate, ih.2.1.trans hlog, fun v hv => ?_⟩
      rcases List.mem_cons.1 hv with rfl | hv
      · exact hnone _ rfl
      · exact ih.2.2 v hv

theorem Finish.dry {sts : List Stage} {r : Except Error (List Operation)}
    (h : Finish table mode c sts t r t') (hdry : mode.dryRun = true) :
    t'.state = t.state ∧ t'.log = t.log
      ∧ ∀ failures operations, r ≠ .error (.mutations failures operations) := by
  cases h with
  | completed visits hsts hran hclean =>
      obtain ⟨hstate, hlog, -⟩ := hran.dry hdry
      exact ⟨hstate, hlog, fun _ _ hr => nomatch hr⟩
  | failed visits last rest hsts hran hclean hfailures hnames =>
      exact absurd ((hran.dry hdry).2.2 last (by simp)) hfailures
  | unlisted visits stage rest cause hsts hran hclean herror hstate hlog =>
      obtain ⟨hstate', hlog', -⟩ := hran.dry hdry
      exact ⟨hstate.trans hstate', hlog.trans hlog', fun _ _ hr => nomatch hr⟩

/-- Where no call is made to fail, a run comes to the operations decided at the
beginning, or to the first of them. -/
theorem Finish.quiet {sts : List Stage} {r : Except Error (List Operation)}
    (h : Finish table mode c sts t r t') (hnodup : sts.Nodup) (hquiet : t.faults.Quiet) :
    r = .ok (sts.flatMap (Stage.operations table mode c t.state))
      ∨ ∃ failures operations, r = .error (.mutations failures operations)
          ∧ operations <+: sts.flatMap (Stage.operations table mode c t.state) := by
  cases h with
  | completed visits hsts hran hclean =>
      subst hsts
      rw [operationsOf_ran hran hnodup hquiet.settingsShown]
      exact .inl rfl
  | failed visits last rest hsts hran hclean hfailures hnames =>
      refine .inr ⟨_, _, rfl, ?_⟩
      -- the stages visited are the first of the schedule
      have hsplit : sts = (visits ++ [last]).map Visit.stage ++ rest := by simp [hsts]
      rw [hsplit] at hnodup ⊢
      rw [operationsOf_ran hran (List.nodup_append.1 hnodup).1 hquiet.settingsShown,
        List.flatMap_append]
      exact List.prefix_append _ _
  | unlisted visits stage rest cause hsts hran hclean herror hstate hlog =>
      obtain ⟨o, t₂, hok⟩ := stage.run_quiet table mode c (hquiet.weaker hran.confined.weaker)
      rw [hok] at herror
      cases herror

end Runs

/-! ## §3. The dry run and the real one. -/

/-- **A dry run is harmless and faithful.**  Under any faults it leaves the state
and the log as they are.  Where no call is made to fail, it is refused exactly
as the real run is, or gives a plan, and the real run then reports the plan, or
fails with operations that are the first of it. -/
theorem dry_run_plan (table : List String) (o : Options) (c : Config) (t : Tenant) :
    ((exec (pushWith table (o.withDryRun true) c) t).2.state = t.state
      ∧ (exec (pushWith table (o.withDryRun true) c) t).2.log = t.log)
    ∧ (t.faults.Quiet →
      (∃ e, (e = .nothingSelected ∨ ∃ why, e = .invalid why)
        ∧ (exec (pushWith table (o.withDryRun true) c) t).1 = .error e
        ∧ (exec (pushWith table (o.withDryRun false) c) t).1 = .error e)
      ∨ ∃ plan, (exec (pushWith table (o.withDryRun true) c) t).1 = .ok plan
        ∧ ((exec (pushWith table (o.withDryRun false) c) t).1 = .ok plan
          ∨ ∃ failures operations,
              (exec (pushWith table (o.withDryRun false) c) t).1
                = .error (.mutations failures operations)
              ∧ operations <+: plan)) := by
  have hcategories : ∀ dry, (o.withDryRun dry).categories = o.categories := fun _ => rfl
  have hinvalid : ∀ dry, invalid? table c (o.withDryRun dry) = invalid? table c o := fun _ => rfl
  have hschedule : ∀ dry, schedule (o.withDryRun dry) c t.state = schedule o c t.state :=
    fun _ => rfl
  simp only [exec_pushWith, hcategories, hinvalid, hschedule]
  cases o.categories.isEmpty with
  | true => exact ⟨⟨rfl, rfl⟩, fun _ => .inl ⟨_, .inl rfl, rfl, rfl⟩⟩
  | false =>
      cases invalid? table c o with
      | some why => exact ⟨⟨rfl, rfl⟩, fun _ => .inl ⟨_, .inr ⟨why, rfl⟩, rfl, rfl⟩⟩
      | none =>
          simp only [Bool.false_eq_true, if_false]
          rcases hd : exec (runStages table (o.withDryRun true).mode c (schedule o c t.state) []) t
            with ⟨rd, td⟩
          rcases hr : exec (runStages table (o.withDryRun false).mode c (schedule o c t.state) []) t
            with ⟨rr, tr⟩
          obtain ⟨_, rfl, hdry⟩ := finish_of_runStages _ hd
          obtain ⟨_, rfl, hreal⟩ := finish_of_runStages _ hr
          rw [after_nil, after_nil]
          obtain ⟨hstate, hlog, hnomutations⟩ := hdry.dry rfl
          refine ⟨⟨hstate, hlog⟩, fun hquiet => .inr ?_⟩
          have hnodup := schedule_nodup o c t.state
          -- neither mode has an influence on what is decided
          have hplan : ∀ dry, Stage.operations table (o.withDryRun dry).mode c t.state
              = Stage.operations table o.mode c t.state :=
            fun dry => Stage.operations_dryRun table o.mode dry c t.state
          have hdryQuiet := hdry.quiet hnodup hquiet
          have hrealQuiet := hreal.quiet hnodup hquiet
          rw [hplan] at hdryQuiet hrealQuiet
          rcases hdryQuiet with hok | ⟨failures, operations, hfailed, -⟩
          · exact ⟨_, hok, hrealQuiet⟩
          · exact absurd hfailed (hnomutations failures operations)

end TenantSync.Push
