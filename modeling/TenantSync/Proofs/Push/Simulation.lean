/-
  TenantSync.Proofs.Push.Simulation
  ─────────────────────────────────
  **TWO PUSHES SIDE BY SIDE.**

  Two tenants that count as one to a tolerance are given pushes for two documents
  that ask for what counts as one.  Then

      a pass     comes to one outcome                  (`Pass.run_matches`)
      a stage    leaves what other passes are about    (`Stage.run_matches`)
      a push     has one schedule, comes to one result, and leaves tenants
                 that count as one again               (`push_matches`)

  What is so of all of a state is not asked for: the two need to be alike only in
  what some stages are about, those of the push among them.
-/
import TenantSync.Proofs.Push.Schedule
import TenantSync.Proofs.Push.Tolerance

namespace TenantSync.Push

open Config Tenant

section SideBySide

variable {T : Tolerance} {table : List String} {mode : Mode} {c c' : Config}

/-! ## §1. Passes. -/

/-- Two documents ask for what counts as one. -/
structure Tolerance.Asks (T : Tolerance) (c c' : Config) : Prop where
  desired : ∀ p : Pass, NameMap.Related (T.wanted p) (p.desired c) (p.desired c')
  identity : ∀ name k k', c.installationKeys.get? name = some k →
    c'.installationKeys.get? name = some k' → Store.keyIdentity name k = Store.keyIdentity name k'
  rules : c'.rules.isEmpty = c.rules.isEmpty
  namespaces : c'.ruleNamespaces = c.ruleNamespaces

theorem Tolerance.Asks.refl (c : Config) : T.Asks c c where
  desired := fun p => .refl (T.wanted_refl p) (p.desired c)
  identity := by
    intro name k k' hk hk'
    rw [hk] at hk'
    cases hk'
    rfl
  rules := rfl
  namespaces := rfl

/-- **A pass cannot tell apart what counts as one.** -/
theorem Pass.run_matches (table : List String) (mode : Mode) (hasks : T.Asks c c') {p : Pass}
    (hids : p = .installationKeys → T.ids) (before before' : List Mutation) :
    Matches (T.At p before before') Eq (p.run table mode c) (p.run table mode c') := by
  rw [Pass.run_eq, Pass.run_eq]
  refine reconcile_matches (T.store_matches table p hids) mode (hasks.desired p) ?_
  -- only installation keys are identified by more than their names
  cases p with
  | installationKeys => exact hasks.identity
  | _ => exact fun _ _ _ _ _ => rfl

/-! ## §2. Stages. -/

/-- Tenants that count as one to some stages; of their logs, what came after two
beginnings. -/
structure Tolerance.On (T : Tolerance) (P : Stage → Prop) (before before' : List Mutation)
    (t u : Tenant) : Prop where
  slices : ∀ p, P (.pass p) → p.LikeAt T.Element t.state u.state
  namespaces : P .namespaces → u.state.rules.keys = t.state.rules.keys
  counter : T.ids → u.state.idCounter = t.state.idCounter
  faults : T.faults t.faults u.faults
  now : T.now t.now u.now
  log : ∃ logged, t.log = before ++ logged ∧ u.log = before' ++ logged

variable {P : Stage → Prop} {before before' : List Mutation}

/-- Two tenants differ at most in elements that are alike, and in times. -/
structure AlikeUpTo (E : (p : Pass) → Remote p.Body → Remote p.Body → Prop) (t u : Tenant) :
    Prop where
  elements : ∀ p : Pass, p.LikeAt E t.state u.state
  namespaces : u.state.rules.keys = t.state.rules.keys
  idCounter : u.state.idCounter = t.state.idCounter
  faults : u.faults = t.faults
  log : u.log = t.log

/-- A tenant counts as one with itself at another time. -/
theorem Tolerance.On.later {t : Tenant} {now : Timestamp} (hfaults : T.faults t.faults t.faults)
    (hnow : T.now t.now now) : T.On P t.log t.log t { t with now } where
  slices := fun p _ => .refl (fun _ => Tolerance.element_refl) p t.state
  namespaces := fun _ => rfl
  counter := fun _ => rfl
  faults := hfaults
  now := hnow
  log := ⟨[], (List.append_nil _).symm, (List.append_nil _).symm⟩

/-- Where identifiers and faults may not differ, what counts as one is alike. -/
theorem Tolerance.On.alikeUpTo {t u : Tenant} (hids : T.ids)
    (hfaults : ∀ {f f' : Faults}, T.faults f f' → f' = f)
    (h : T.On (fun _ => True) before before t u) : AlikeUpTo T.Element t u where
  elements := fun p => h.slices p trivial
  namespaces := h.namespaces trivial
  idCounter := h.counter hids
  faults := hfaults h.faults
  log := by
    obtain ⟨logged, ht, hu⟩ := h.log
    rw [ht, hu]

theorem Tolerance.On.at {t u : Tenant} (h : T.On P before before' t u) {p : Pass}
    (hp : P (.pass p)) : T.At p before before' t u :=
  ⟨h.slices p hp, h.counter, h.faults, h.now, h.log⟩

/-- What is done within a pass leaves what other passes are about as it is. -/
theorem Tolerance.matches_within {ε α β : Type} {p : Pass} (hp : P (.pass p)) {Q : α → β → Prop}
    {x : ExceptT ε (StateM Tenant) α} {y : ExceptT ε (StateM Tenant) β} (hx : Keeps p.Within x) (hy : Keeps p.Within y)
    (h : Matches (T.At p before before') Q x y) : Matches (T.On P before before') Q x y := by
  intro t u hon
  obtain ⟨hresult, hat⟩ := h t u (hon.at hp)
  have ht := (hx t).state
  have hu := (hy u).state
  refine ⟨hresult, fun q hq => ?_, fun hns => ?_, hat.counter, hat.faults, hat.now, hat.log⟩
  · by_cases hqp : q = p
    · rw [hqp]
      exact hat.slice
    · -- another pass's slice is in each of the two what it was
      exact (hon.slices q hq).congr (ht.others q hqp) (hu.others q hqp)
  · exact (hu.namespaces.trans (hon.namespaces hns)).trans ht.namespaces.symm

/-- A stage may make its calls, and what other passes are about stays as it is. -/
theorem Stage.run_matches (hasks : T.Asks c c') {stage : Stage} (hstage : P stage)
    (hids : stage = .pass .installationKeys → T.ids) :
    Matches (T.On P before before') Eq (stage.run table mode c) (stage.run table mode c') := by
  cases stage with
  | namespaces =>
      intro t u h
      have hcounted : T.On P before before' (t.counted ⟨.list, .rule⟩)
          (u.counted ⟨.list, .rule⟩) :=
        ⟨h.slices, h.namespaces, h.counter, T.met.check h.faults _, h.now, h.log⟩
      rw [exec_run_namespaces, exec_run_namespaces, exec_namespaces, exec_namespaces, hasks.rules,
        ← T.met.answer h.faults]
      cases c.rules.isEmpty with
      | false => exact ⟨.ok rfl, h⟩
      | true =>
          simp only [if_true]
          cases t.faults.answer ⟨.list, .rule⟩ with
          | some cause => exact ⟨.error _, hcounted⟩
          | none => exact ⟨.ok rfl, hcounted⟩
  | pass p =>
      have hkeys : p = .installationKeys → T.ids := by
        intro hp
        exact hids (by rw [hp])
      exact Tolerance.matches_within hstage (p.run_within table mode c) (p.run_within table mode c')
        (Pass.run_matches table mode hasks hkeys before before')

theorem conclude_matches {R : Tenant → Tenant → Prop} (o : Outcome) (operations : List Operation) :
    Matches R Eq (conclude o operations) (conclude o operations) := by
  unfold conclude
  split
  · exact .pure rfl
  · exact .throw _

theorem runStages_matches (table : List String) (mode : Mode) (hasks : T.Asks c c')
    (sts : List Stage) :
    ∀ operations : List Operation,
      (∀ stage ∈ sts, P stage ∧ (stage = .pass .installationKeys → T.ids)) →
        Matches (T.On P before before') Eq (runStages table mode c sts operations)
          (runStages table mode c' sts operations) := by
  induction sts with
  | nil =>
      intro operations _
      exact .pure rfl
  | cons stage rest ih =>
      intro operations hsts
      obtain ⟨hstage, hids⟩ := hsts stage List.mem_cons_self
      rw [runStages_cons, runStages_cons]
      refine (Stage.run_matches hasks hstage hids).bind ?_
      rintro o _ rfl
      refine (conclude_matches o operations).bind ?_
      rintro operations' _ rfl
      exact ih operations' fun stage' hstage' => hsts stage' (List.mem_cons_of_mem _ hstage')

/-! ## §3. Pushes. -/

/-- The schedule depends on the namespaces of a tenant only where it is to ask for them. -/
theorem schedule_congr {o : Options} {s s' : State}
    (h : .namespaces ∈ schedule o c s → s'.rules.keys = s.rules.keys) :
    schedule o c s' = schedule o c s := by
  unfold schedule
  rw [List.flatMap_def, List.flatMap_def]
  refine congrArg List.flatten (List.map_congr_left fun category hcategory => ?_)
  cases category with
  | rules =>
      unfold stages scope
      -- a document with rules names its namespaces itself
      by_cases hrules : c.rules.isEmpty = true
      · have hasks : .namespaces ∈ schedule o c s := by
          refine List.mem_flatMap.2 ⟨.rules, hcategory, ?_⟩
          unfold stages
          rw [if_pos hrules]
          exact List.mem_cons_self
        rw [h hasks]
      · simp only [if_neg hrules]
  | _ => rfl

/-- Documents that ask for what counts as one are pushed in one schedule. -/
theorem Tolerance.Asks.schedule (hasks : T.Asks c c') (o : Options) (s : State) :
    schedule o c' s = schedule o c s := by
  have hstages : stages c' s = stages c s := by
    funext category
    unfold stages scope
    rw [hasks.rules, hasks.namespaces]
  unfold Push.schedule
  rw [hstages]

/-- **Pushes side by side** come to one result, and leave tenants that count as one. -/
theorem push_matches (table : List String) (hasks : T.Asks c c') {o : Options}
    (hinvalid : invalid? table c' o = invalid? table c o)
    (hids : o.selected .installationKeys = true → T.ids) {t u : Tenant}
    (hP : ∀ stage ∈ schedule o c t.state, P stage) (h : T.On P before before' t u) :
    (exec (pushWith table o c) t).1 = (exec (pushWith table o c') u).1
      ∧ T.On P before before' (exec (pushWith table o c) t).2
          (exec (pushWith table o c') u).2 := by
  have hschedule : schedule o c' u.state = schedule o c t.state := by
    rw [hasks.schedule]
    exact schedule_congr fun hns => h.namespaces (hP _ hns)
  rw [exec_pushWith, exec_pushWith, hschedule, hinvalid]
  cases o.categories.isEmpty with
  | true => exact ⟨rfl, h⟩
  | false =>
      cases invalid? table c o with
      | some why => exact ⟨rfl, h⟩
      | none =>
          have hsts : ∀ stage ∈ schedule o c t.state,
              P stage ∧ (stage = .pass .installationKeys → T.ids) := by
            intro stage hstage
            refine ⟨hP stage hstage, fun hkeys => hids ?_⟩
            have hselected := selected_of_mem_schedule hstage
            rw [hkeys] at hselected
            exact hselected
          obtain ⟨hresult, hend⟩ := runStages_matches table o.mode hasks (schedule o c t.state) []
            hsts t u h
          exact ⟨hresult.eq, hend⟩

end SideBySide

end TenantSync.Push
