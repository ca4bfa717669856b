/-
  TenantSync.Proofs.Push.Course
  ─────────────────────────────
  **HOW A PUSH GOES AND WHERE IT STOPS.**

  `Ran t visits t'` says that stages were run one after the other, each to an
  outcome of its own, and nothing besides: a visit begins where the one before it
  ended.  A schedule is run in exactly one of three ways (`Finish`):

      completed    every stage was visited, none had a failure
      failed       the last stage visited had failures, none before it did
      unlisted     the stage behind the last visit could not be listed,
                   and left state and log as they were

  What is reported are the operations of all visits, and the failures of the last.
-/
import TenantSync.Proofs.Push.Account
import TenantSync.Proofs.Push.Refusal
import TenantSync.Proofs.Push.Schedule

namespace TenantSync.Push

open Config Tenant

/-! ## §1. Visits. -/

/-- A stage that was run, what came of it, and what was logged meanwhile. -/
structure Visit where
  stage : Stage
  outcome : Outcome
  logged : List Mutation

/-- The operations of visits, in turn. -/
def operationsOf (visits : List Visit) : List Operation :=
  visits.flatMap fun v => v.outcome.operations

/-- No visit had a failure. -/
def Clean (visits : List Visit) : Prop := ∀ v ∈ visits, v.outcome.failures = []

section Course

variable {table : List String} {mode : Mode} {c : Config}

/-- From `t` to `t'` the stages of some visits were run, in turn. -/
inductive Ran (table : List String) (mode : Mode) (c : Config) :
    Tenant → List Visit → Tenant → Prop where
  | nil {t : Tenant} : Ran table mode c t [] t
  | cons {t t₁ t' : Tenant} {v : Visit} {visits : List Visit}
      (hrun : exec (v.stage.run table mode c) t = (.ok v.outcome, t₁))
      (hlog : t₁.log = t.log ++ v.logged) (hrest : Ran table mode c t₁ visits t') :
      Ran table mode c t (v :: visits) t'

namespace Ran

variable {t t₁ t' : Tenant} {visits visits' : List Visit}

/-- Visits in the middle begin and end somewhere in between. -/
theorem split (h : Ran table mode c t (visits ++ visits') t') :
    ∃ t₁, Ran table mode c t visits t₁ ∧ Ran table mode c t₁ visits' t' := by
  induction visits generalizing t with
  | nil => exact ⟨t, .nil, h⟩
  | cons v visits ih =>
      cases h with
      | cons hrun hlog hrest =>
          obtain ⟨t₁, hfirst, hlast⟩ := ih hrest
          exact ⟨t₁, .cons hrun hlog hfirst, hlast⟩

/-- Visits are confined to their stages. -/
theorem confined (h : Ran table mode c t visits t') :
    Confined (visits.map Visit.stage) t t' := by
  induction h with
  | nil => exact .refl _
  | @cons t t₁ t' v visits hrun _ _ ih =>
      have hfirst := v.stage.run_confined table mode c t
      rw [hrun] at hfirst
      exact hfirst.trans ih

theorem log (h : Ran table mode c t visits t') :
    t'.log = t.log ++ visits.flatMap Visit.logged := by
  induction h with
  | nil => simp
  | cons _ hlog _ ih => rw [ih, hlog, List.flatMap_cons, List.append_assoc]

/-- **A pass among visits found its slice as it was at the beginning, and left it
as it is in the end**, because no stage is visited twice. -/
theorem visit (h : Ran table mode c t visits t') (hnodup : (visits.map Visit.stage).Nodup)
    {v : Visit} (hv : v ∈ visits) {p : Pass} (hp : v.stage = .pass p) :
    ∃ t₁ t₂, exec (p.run table mode c) t₁ = (.ok v.outcome, t₂) ∧ t₂.log = t₁.log ++ v.logged
      ∧ p.SameAt t.state t₁.state ∧ p.SameAt t₂.state t'.state
      ∧ t.faults.Weaker t₁.faults := by
  obtain ⟨before, later, rfl⟩ := List.append_of_mem hv
  rw [List.map_append, List.map_cons, hp] at hnodup
  -- neither before nor after the visit is there another one to the same pass
  obtain ⟨-, hlater, hbefore⟩ := List.nodup_append.1 hnodup
  obtain ⟨t₁, hfirst, hrest⟩ := h.split
  cases hrest with
  | @cons _ t₂ _ _ _ hrun hlog hlast =>
      refine ⟨t₁, t₂, ?_, hlog, hfirst.confined.others p fun hmem => ?_,
        hlast.confined.others p (List.nodup_cons.1 hlater).1, hfirst.confined.weaker⟩
      · rw [hp] at hrun
        exact hrun
      · exact hbefore _ hmem _ List.mem_cons_self rfl

end Ran

/-- A name that a stage may give account of: of its own kind of elements, and in a
pass over rules a rule of its own namespace. -/
def Stage.Names (stage : Stage) (element : ElementType) (name : String) : Prop :=
  element = stage.element
    ∧ ∀ ns, stage = .pass (.rules ns) → ∃ rule, name = Store.ruleName ns rule

/-- What fails in a stage is of the stage. -/
theorem Stage.names_of_failure {stage : Stage} {t t' : Tenant} {o : Outcome}
    (h : exec (stage.run table mode c) t = (.ok o, t')) :
    ∀ f ∈ o.failures, stage.Names f.element f.name := by
  intro f hf
  cases stage with
  | namespaces =>
      obtain ⟨rfl, -, -⟩ := run_namespaces_ok h
      cases hf
  | pass p =>
      obtain ⟨held, t₁, hfetch, henact⟩ := Pass.run_ok h
      have hfailed := enactAll_failures (p.store table) mode
        (plan (p.store table) mode (p.desired c).entries held) t₁ f
      rw [henact, Pass.store_element] at hfailed
      refine ⟨(hfailed hf).1, ?_⟩
      rintro ns ⟨⟩
      rcases (mem_plan_ids _ _ _ _ _).1 (hfailed hf).2 with hdesired | hheld
      · obtain ⟨e, -, heq⟩ := List.mem_map.1 hdesired
        exact ⟨e.1, heq.symm⟩
      · -- rules are listed under composed names only
        have hread := Pass.exec_fetch table (p := .rules ns) (by simp) t
        rw [hfetch] at hread
        obtain ⟨rfl, -⟩ := reading_ok hread.symm
        obtain ⟨r, hr⟩ := NameMap.mem_keys.1 hheld
        obtain ⟨name, hname, -⟩ := Pass.label_of_view (Pass.view_of_listed hr)
        exact ⟨name, hname⟩

/-! ## §2. The three ways to finish. -/

/-- How running a list of stages finishes: with which result, in which tenant. -/
inductive Finish (table : List String) (mode : Mode) (c : Config) (sts : List Stage)
    (t : Tenant) : Except Error (List Operation) → Tenant → Prop where
  /-- Every stage was visited and none had a failure. -/
  | completed {t' : Tenant} (visits : List Visit)
      (hsts : sts = visits.map Visit.stage) (hran : Ran table mode c t visits t')
      (hclean : Clean visits) : Finish table mode c sts t (.ok (operationsOf visits)) t'
  /-- The last stage that was visited had failures, which are all its own, and
  none before it had any. -/
  | failed {t' : Tenant} (visits : List Visit) (last : Visit) (rest : List Stage)
      (hsts : sts = visits.map Visit.stage ++ last.stage :: rest)
      (hran : Ran table mode c t (visits ++ [last]) t') (hclean : Clean visits)
      (hfailures : last.outcome.failures ≠ [])
      (hnames : ∀ f ∈ last.outcome.failures, last.stage.Names f.element f.name) :
      Finish table mode c sts t
        (.error (.mutations last.outcome.failures (operationsOf (visits ++ [last])))) t'
  /-- A stage could not be listed, none before it had a failure. -/
  | unlisted {t₁ t' : Tenant} (visits : List Visit) (stage : Stage) (rest : List Stage)
      (cause : TenantError) (hsts : sts = visits.map Visit.stage ++ stage :: rest)
      (hran : Ran table mode c t visits t₁) (hclean : Clean visits)
      (herror : exec (stage.run table mode c) t₁ = (.error (.fetch stage.element cause), t'))
      (hstate : t'.state = t₁.state) (hlog : t'.log = t₁.log) :
      Finish table mode c sts t (.error (.fetch stage.element cause)) t'

theorem operationsOf_singleton (v : Visit) : operationsOf [v] = v.outcome.operations :=
  List.append_nil _

/-- A result with operations that came before it. -/
def after (operations : List Operation) :
    Except Error (List Operation) → Except Error (List Operation)
  | .ok rest => .ok (operations ++ rest)
  | .error (.mutations failures rest) => .error (.mutations failures (operations ++ rest))
  | .error e => .error e

theorem after_nil (r : Except Error (List Operation)) : after [] r = r := by
  rcases r with e | rest
  · cases e <;> rfl
  · rfl

theorem after_append (operations operations' : List Operation)
    (r : Except Error (List Operation)) :
    after (operations ++ operations') r = after operations (after operations' r) := by
  rcases r with e | rest
  · cases e with
    | mutations failures rest => simp [after]
    | _ => rfl
  · simp [after]

/-- **Operations that came before are only put in front** of what stages come to. -/
theorem exec_runStages_after (sts : List Stage) :
    ∀ (operations : List Operation) (t : Tenant),
      exec (runStages table mode c sts operations) t
        = (after operations (exec (runStages table mode c sts []) t).1,
            (exec (runStages table mode c sts []) t).2) := by
  induction sts with
  | nil =>
      intro operations t
      show (Except.ok operations, t) = (after operations (.ok []), t)
      simp [after]
  | cons stage sts ih =>
      intro operations t
      rw [runStages_cons, runStages_cons, exec_bind, exec_bind]
      rcases hrun : exec (stage.run table mode c) t with ⟨e | o, t₁⟩
      · -- what cannot be listed fails without operations
        obtain ⟨⟨cause, rfl⟩, -, -⟩ := Stage.run_error hrun
        rfl
      · by_cases hnone : o.failures = []
        · simp only [conclude_ok hnone, pure_bind]
          rw [ih, ih ([] ++ o.operations), List.nil_append, after_append]
        · simp only [conclude_failed hnone, throw_bind]
          rfl

/-- One more visit in front, which had no failure. -/
theorem Finish.cons {sts : List Stage} {t t₁ t' : Tenant} {v : Visit}
    {r : Except Error (List Operation)}
    (hrun : exec (v.stage.run table mode c) t = (.ok v.outcome, t₁))
    (hlog : t₁.log = t.log ++ v.logged) (hnone : v.outcome.failures = [])
    (h : Finish table mode c sts t₁ r t') :
    Finish table mode c (v.stage :: sts) t (after v.outcome.operations r) t' := by
  have hcons : ∀ {visits}, Clean visits → Clean (v :: visits) := by
    intro visits hclean w hw
    rcases List.mem_cons.1 hw with rfl | hw
    · exact hnone
    · exact hclean w hw
  cases h with
  | completed visits hsts hran hclean =>
      subst hsts
      exact .completed (v :: visits) rfl (.cons hrun hlog hran) (hcons hclean)
  | failed visits last rest hsts hran hclean hfailures hnames =>
      subst hsts
      exact .failed (v :: visits) last rest rfl (.cons hrun hlog hran) (hcons hclean) hfailures
        hnames
  | unlisted visits stage rest cause hsts hran hclean herror hstate hlog' =>
      subst hsts
      exact .unlisted (v :: visits) stage rest cause rfl (.cons hrun hlog hran) (hcons hclean)
        herror hstate hlog'

/-- **Running stages finishes in one of the three ways.** -/
theorem finish_of_runStages (sts : List Stage) :
    ∀ {operations : List Operation} {t t' : Tenant} {r : Except Error (List Operation)},
      exec (runStages table mode c sts operations) t = (r, t') →
        ∃ r₀, r = after operations r₀ ∧ Finish table mode c sts t r₀ t' := by
  -- by the stages to come: what came before them is only put in front of the result
  induction sts with
  | nil =>
      intro operations t t' r h
      cases h
      exact ⟨.ok [], by simp [after], .completed [] rfl .nil fun v hv => nomatch hv⟩
  | cons stage sts ih =>
      intro operations t t' r h
      rw [runStages_cons, exec_bind] at h
      rcases hrun : exec (stage.run table mode c) t with ⟨e | o, t₁⟩
      · rw [hrun] at h
        cases h
        obtain ⟨⟨cause, rfl⟩, hstate, hlog⟩ := Stage.run_error hrun
        exact ⟨_, rfl, .unlisted [] stage sts cause rfl .nil (fun v hv => nomatch hv) hrun
          hstate hlog⟩
      · -- what the stage logged is what its visit carries
        obtain ⟨logged, hlog⟩ : ∃ logged, t₁.log = t.log ++ logged := by
          have hconfined := stage.run_confined table mode c t
          rw [hrun] at hconfined
          exact hconfined.log
        rw [hrun] at h
        by_cases hnone : o.failures = []
        · simp only [conclude_ok hnone, pure_bind] at h
          obtain ⟨r₀, rfl, hfinish⟩ := ih h
          refine ⟨after o.operations r₀, after_append _ _ _, ?_⟩
          exact .cons (v := ⟨stage, o, logged⟩) hrun hlog hnone hfinish
        · -- a stage with failures is the last one
          simp only [conclude_failed hnone, throw_bind] at h
          cases h
          let last : Visit := ⟨stage, o, logged⟩
          have hran : Ran table mode c t ([] ++ [last]) t' := .cons hrun hlog .nil
          have hfinish : Finish table mode c (stage :: sts) t
              (.error (.mutations o.failures (operationsOf ([] ++ [last])))) t' :=
            .failed [] last sts rfl hran (fun v hv => nomatch hv) hnone
              (Stage.names_of_failure hrun)
          rw [List.nil_append, operationsOf_singleton] at hfinish
          exact ⟨.error (.mutations o.failures o.operations), rfl, hfinish⟩

/-! ## §3. A push. -/

/-- **A push is refused, or runs its schedule.** -/
theorem push_cases {o : Options} {t t' : Tenant} {r : Except Error (List Operation)}
    (h : exec (pushWith table o c) t = (r, t')) :
    (o.categories = [] ∧ r = .error .nothingSelected ∧ t' = t)
      ∨ (o.categories ≠ [] ∧ Unpushable table o c ∧ (∃ why, r = .error (.invalid why)) ∧ t' = t)
      ∨ o.categories ≠ [] ∧ ¬Unpushable table o c
          ∧ Finish table o.mode c (schedule o c t.state) t r t' := by
  rw [exec_pushWith] at h
  by_cases hcategories : o.categories = []
  · rw [if_pos (List.isEmpty_iff.2 hcategories)] at h
    cases h
    exact .inl ⟨hcategories, rfl, rfl⟩
  · rw [if_neg fun hempty => hcategories (List.isEmpty_iff.1 hempty)] at h
    cases hinvalid : invalid? table c o with
    | some why =>
        rw [hinvalid] at h
        cases h
        refine .inr (.inl ⟨hcategories, invalid?_isSome.1 ?_, ⟨why, rfl⟩, rfl⟩)
        rw [hinvalid]
        rfl
    | none =>
        rw [hinvalid] at h
        obtain ⟨r₀, rfl, hfinish⟩ := finish_of_runStages _ h
        rw [after_nil]
        exact .inr (.inr ⟨hcategories, invalid?_eq_none.1 hinvalid, hfinish⟩)

/-- Every pass over settings is covered where the selection can be pushed. -/
theorem covered_of_pushable {o : Options} {p : Pass} (hpushable : ¬Unpushable table o c)
    (hselected : o.selected (Stage.pass p).category = true) : p.Covered table c := by
  rintro rfl key hkey
  refine Classical.byContradiction fun hnot => hpushable ?_
  exact .inl ⟨hselected, key, hkey, hnot⟩

/-- What a push reports: operations, and failures if there were any. -/
def Reports (r : Except Error (List Operation)) (operations : List Operation)
    (failures : List Failure) : Prop :=
  (r = .ok operations ∧ failures = []) ∨ r = .error (.mutations failures operations)

/-- A push that reports has made visits, of which only the last may have failures. -/
theorem visits_of_push {o : Options} {t t' : Tenant} {r : Except Error (List Operation)}
    {operations : List Operation} {failures : List Failure}
    (h : exec (pushWith table o c) t = (r, t')) (hreports : Reports r operations failures) :
    ∃ visits rest, Ran table o.mode c t visits t' ∧ ¬Unpushable table o c
      ∧ schedule o c t.state = visits.map Visit.stage ++ rest
      ∧ operations = operationsOf visits
      ∧ failures = visits.flatMap fun v => v.outcome.failures := by
  have hnone : ∀ visits : List Visit, Clean visits →
      (visits.flatMap fun v => v.outcome.failures) = [] := by
    intro visits hclean
    rw [List.flatMap_eq_nil_iff]
    exact hclean
  -- a push that is refused, or stops at a stage that is not listed, reports nothing
  rcases push_cases h with ⟨-, rfl, -⟩ | ⟨-, -, ⟨why, rfl⟩, -⟩ | ⟨-, hpushable, hfinish⟩
  · rcases hreports with ⟨hr, -⟩ | hr <;> cases hr
  · rcases hreports with ⟨hr, -⟩ | hr <;> cases hr
  · cases hfinish with
    | completed visits hsts hran hclean =>
        rcases hreports with ⟨hr, rfl⟩ | hr <;> cases hr
        exact ⟨visits, [], hran, hpushable, by rw [hsts, List.append_nil], rfl,
          (hnone visits hclean).symm⟩
    | failed visits last rest hsts hran hclean hfailures hnames =>
        rcases hreports with ⟨hr, -⟩ | hr <;> cases hr
        refine ⟨visits ++ [last], rest, hran, hpushable, by simp [hsts], rfl, ?_⟩
        rw [List.flatMap_append, hnone visits hclean]
        simp
    | unlisted visits stage rest cause hsts hran hclean herror hstate hlog =>
        rcases hreports with ⟨hr, -⟩ | hr <;> cases hr

end Course

end TenantSync.Push
