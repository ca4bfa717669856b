/-
  TenantSync.Proofs.Push.Schedule
  ───────────────────────────────
  **A PUSH IS A LIST OF STAGES, KNOWN BEFORE IT BEGINS.**

  A push goes through categories, a category through passes, and the passes over
  rules through the namespaces that the tenant is asked for on the way.  Since no
  pass makes or drops a namespace, all of this is one list of stages, its
  `schedule`, which the state at the beginning determines:

      push  =  check the configuration, then run the schedule

  (`exec_pushWith`).  Every stage is in the schedule once, and a stage leaves the
  slices of all others and the faults of other kinds of elements alone.
-/
import TenantSync.Proofs.Push.Listing

namespace TenantSync.Push

open Config Tenant

/-! ## §1. Stages. -/

/-- What a push does in one go. -/
inductive Stage where
  /-- Ask the tenant for its rule namespaces. -/
  | namespaces
  | pass (p : Pass)
  deriving DecidableEq

namespace Stage

/-- The kind of elements of a stage. -/
def element : Stage → ElementType
  | .namespaces => .rule
  | .pass p => p.element

/-- Do what a stage does. -/
def run (table : List String) (mode : Mode) (c : Config) : Stage → Run Outcome
  | .namespaces => do
      let _ ← Push.namespaces c
      return {}
  | .pass p => p.run table mode c

/-- The category that a stage belongs to. -/
def category : Stage → Category
  | .namespaces | .pass (.rules _) => .rules
  | .pass .resources => .resources
  | .pass .falsePositives => .falsePositives
  | .pass .outputs => .outputs
  | .pass .integrity => .integrity
  | .pass .exfilWatches | .pass .exfilEvents => .exfil
  | .pass .artifacts => .artifacts
  | .pass .yaraSources | .pass .yaraRules => .yara
  | .pass .installationKeys => .installationKeys
  | .pass .orgValues => .orgValues

end Stage

/-- The namespaces whose rules a push reconciles: those of the document's rules,
or all of the tenant's if the document has no rules. -/
def scope (c : Config) (s : State) : List String :=
  if c.rules.isEmpty then s.rules.keys else c.ruleNamespaces.keys

/-- The stages of a category. -/
def stages (c : Config) (s : State) : Category → List Stage
  | .resources => [.pass .resources]
  | .rules =>
      (if c.rules.isEmpty then [.namespaces] else [])
        ++ (scope c s).map fun ns => .pass (.rules ns)
  | .falsePositives => [.pass .falsePositives]
  | .outputs => [.pass .outputs]
  | .integrity => [.pass .integrity]
  | .exfil => [.pass .exfilWatches, .pass .exfilEvents]
  | .artifacts => [.pass .artifacts]
  | .yara => [.pass .yaraSources, .pass .yaraRules]
  | .installationKeys => [.pass .installationKeys]
  | .orgValues => [.pass .orgValues]

/-- The stages of a push, in turn. -/
def schedule (o : Options) (c : Config) (s : State) : List Stage :=
  o.categories.flatMap (stages c s)

/-- Run stages in turn, after some operations, up to the first that has a failure. -/
def runStages (table : List String) (mode : Mode) (c : Config) :
    List Stage → List Operation → Run (List Operation)
  | [], operations => return operations
  | stage :: rest, operations => do
      let o ← stage.run table mode c
      if o.failures.isEmpty then runStages table mode c rest (operations ++ o.operations)
      else throw (.mutations o.failures (operations ++ o.operations))

/-! ## §2. Every stage is in the schedule once. -/

theorem category_of_mem_stages {c : Config} {s : State} {category : Category} {stage : Stage}
    (h : stage ∈ stages c s category) : stage.category = category := by
  cases category with
  | rules =>
      rcases List.mem_append.1 h with h | h
      · split at h
        · rw [List.mem_singleton.1 h]
          rfl
        · cases h
      · obtain ⟨ns, -, rfl⟩ := List.mem_map.1 h
        rfl
  | exfil =>
      rcases List.mem_cons.1 h with rfl | h
      · rfl
      · rw [List.mem_singleton.1 h]
        rfl
  | yara =>
      rcases List.mem_cons.1 h with rfl | h
      · rfl
      · rw [List.mem_singleton.1 h]
        rfl
  | _ =>
      rw [List.mem_singleton.1 h]
      rfl

theorem scope_nodup (c : Config) (s : State) : (scope c s).Nodup := by
  unfold scope
  split
  · exact s.rules.keys_nodup
  · exact c.ruleNamespaces.keys_nodup

theorem stages_nodup (c : Config) (s : State) (category : Category) :
    (stages c s category).Nodup := by
  cases category with
  | rules =>
      refine List.nodup_append.2 ⟨by split <;> simp, ?_, ?_⟩
      · rw [List.nodup_iff_pairwise_ne, List.pairwise_map]
        refine (List.nodup_iff_pairwise_ne.1 (scope_nodup c s)).imp fun hne heq => hne ?_
        cases heq
        rfl
      · intro a ha b hb heq
        obtain ⟨ns, -, rfl⟩ := List.mem_map.1 hb
        split at ha
        · rw [List.mem_singleton.1 ha] at heq
          cases heq
        · cases ha
  | _ => simp [stages]

theorem categories_nodup (o : Options) : o.categories.Nodup :=
  (show Category.all.Nodup by decide).filter _

theorem schedule_nodup (o : Options) (c : Config) (s : State) : (schedule o c s).Nodup := by
  unfold schedule
  rw [List.nodup_iff_pairwise_ne, List.pairwise_flatMap]
  refine ⟨fun category _ => stages_nodup c s category, ?_⟩
  -- a stage of two categories would belong to both
  refine (List.nodup_iff_pairwise_ne.1 (categories_nodup o)).imp fun hne a ha b hb heq => hne ?_
  rw [← category_of_mem_stages ha, ← category_of_mem_stages hb, heq]

theorem mem_categories {o : Options} {category : Category} :
    category ∈ o.categories ↔ o.selected category = true := by
  unfold Options.categories
  rw [List.mem_filter]
  have hall : category ∈ Category.all := by cases category <;> decide
  exact ⟨fun h => h.2, fun h => ⟨hall, h⟩⟩

/-- A stage of a schedule belongs to a category that is selected. -/
theorem selected_of_mem_schedule {o : Options} {c : Config} {s : State} {stage : Stage}
    (h : stage ∈ schedule o c s) : o.selected stage.category = true := by
  obtain ⟨category, hcategory, hstage⟩ := List.mem_flatMap.1 h
  rw [category_of_mem_stages hstage]
  exact mem_categories.1 hcategory

theorem mem_schedule {o : Options} {c : Config} {s : State} {category : Category}
    (hselected : o.selected category = true) {stage : Stage} (h : stage ∈ stages c s category) :
    stage ∈ schedule o c s :=
  List.mem_flatMap.2 ⟨category, mem_categories.2 hselected, h⟩

/-! ## §3. What a stage leaves alone. -/

/-- From `t` to `t'` there were only calls of some stages. -/
structure Confined (sts : List Stage) (t t' : Tenant) : Prop where
  /-- The slices of other passes are as they were. -/
  others : ∀ p, .pass p ∉ sts → p.SameAt t.state t'.state
  namespaces : t'.state.rules.keys = t.state.rules.keys
  /-- Faults of other kinds of elements were not met. -/
  faults : ∀ site, (∀ stage ∈ sts, site.element ≠ stage.element) →
    t'.faults.get? site = t.faults.get? site
  weaker : t.faults.Weaker t'.faults
  log : ∃ logged, t'.log = t.log ++ logged

namespace Confined

variable {sts sts' : List Stage} {t t' t'' : Tenant}

theorem refl (t : Tenant) : Confined [] t t where
  others := fun p _ => .refl p t.state
  namespaces := rfl
  faults := fun _ _ => rfl
  weaker := .refl t.faults
  log := ⟨[], (List.append_nil t.log).symm⟩

theorem trans (h : Confined sts t t') (h' : Confined sts' t' t'') :
    Confined (sts ++ sts') t t'' where
  others := fun p hp => by
    rw [List.mem_append, not_or] at hp
    exact (h.others p hp.1).trans (h'.others p hp.2)
  namespaces := h'.namespaces.trans h.namespaces
  faults := fun site hsite => by
    have hfirst := h.faults site fun stage hstage => hsite stage (List.mem_append_left _ hstage)
    have hrest := h'.faults site fun stage hstage => hsite stage (List.mem_append_right _ hstage)
    rw [hrest, hfirst]
  weaker := h.weaker.trans h'.weaker
  log := by
    obtain ⟨logged, hlog⟩ := h.log
    obtain ⟨logged', hlog'⟩ := h'.log
    exact ⟨logged ++ logged', by rw [hlog', hlog, List.append_assoc]⟩

/-- More stages may have been there. -/
theorem mono (h : Confined sts t t') (hsub : ∀ stage ∈ sts, stage ∈ sts') :
    Confined sts' t t' where
  others := fun p hp => h.others p fun hmem => hp (hsub _ hmem)
  namespaces := h.namespaces
  faults := fun site hsite => h.faults site fun stage hstage => hsite stage (hsub stage hstage)
  weaker := h.weaker
  log := h.log

end Confined

/-- Asking for the namespaces is one reading, if it is done at all. -/
theorem exec_namespaces (c : Config) (t : Tenant) :
    exec (namespaces c) t = if c.rules.isEmpty then
        match t.faults.answer ⟨.list, .rule⟩ with
        | some cause => (.error (.fetch .rule cause), t.counted ⟨.list, .rule⟩)
        | none => (.ok t.state.rules.keys, t.counted ⟨.list, .rule⟩)
      else (.ok c.ruleNamespaces.keys, t) := by
  unfold namespaces
  cases c.rules.isEmpty with
  | false => rfl
  | true =>
      simp only [if_true]
      rw [exec_bind, exec_lift, execState_run, exec_ruleNamespaces]
      unfold reading
      cases t.faults.answer ⟨.list, .rule⟩ <;> rfl

theorem exec_run_namespaces (table : List String) (mode : Mode) (c : Config) (t : Tenant) :
    exec (Stage.run table mode c .namespaces) t = match exec (namespaces c) t with
      | (.error e, t') => (.error e, t')
      | (.ok _, t') => (.ok {}, t') := by
  show exec (namespaces c >>= fun _ => pure ({} : Outcome)) t = _
  rw [exec_bind]
  rcases exec (namespaces c) t with ⟨_ | _, _⟩ <;> rfl

/-- Asking for the namespaces comes to nothing that is reported. -/
theorem run_namespaces_ok {table : List String} {mode : Mode} {c : Config} {t t' : Tenant}
    {o : Outcome} (h : exec (Stage.run table mode c .namespaces) t = (.ok o, t')) :
    o = {} ∧ t'.state = t.state ∧ t'.log = t.log := by
  rw [exec_run_namespaces, exec_namespaces] at h
  cases hrules : c.rules.isEmpty with
  | false =>
      rw [hrules] at h
      cases h
      exact ⟨rfl, rfl, rfl⟩
  | true =>
      cases hanswer : t.faults.answer ⟨.list, .rule⟩ with
      | some cause => simp [hrules, hanswer] at h
      | none =>
          simp only [hrules, hanswer, if_true] at h
          cases h
          exact ⟨rfl, rfl, rfl⟩

theorem confined_counted (t : Tenant) :
    Confined [.namespaces] t (t.counted ⟨.list, .rule⟩) where
  others := fun p _ => .refl p t.state
  namespaces := rfl
  faults := fun site hsite => by
    refine Faults.get?_check_of_ne t.faults fun heq => ?_
    exact hsite .namespaces List.mem_cons_self (by rw [heq]; rfl)
  weaker := Faults.check_weaker t.faults _
  log := ⟨[], (List.append_nil t.log).symm⟩

/-- A stage is confined to itself. -/
theorem Stage.run_confined (table : List String) (mode : Mode) (c : Config) (stage : Stage) :
    Keeps (Confined [stage]) (stage.run table mode c) := by
  intro t
  cases stage with
  | namespaces =>
      rw [exec_run_namespaces, exec_namespaces]
      cases c.rules.isEmpty with
      | false => exact (Confined.refl t).mono fun _ hmem => nomatch hmem
      | true =>
          simp only [if_true]
          cases t.faults.answer ⟨.list, .rule⟩ <;> exact confined_counted t
  | pass p =>
      have h := Pass.run_within table mode c p t
      obtain ⟨logged, hlog, -⟩ := h.log
      -- a pass that is not among the stages is another one than this
      refine ⟨fun q hq => h.state.others q fun heq => hq ?_, h.state.namespaces,
        fun site hsite => h.faults site (hsite _ List.mem_cons_self), h.weaker, logged, hlog⟩
      rw [heq]
      exact List.mem_cons_self

/-- A stage that cannot be listed fails with its own kind of elements, and has
changed nothing. -/
theorem Stage.run_error {table : List String} {mode : Mode} {c : Config} {stage : Stage}
    {t t' : Tenant} {e : Error} (h : exec (stage.run table mode c) t = (.error e, t')) :
    (∃ cause, e = .fetch stage.element cause) ∧ t'.state = t.state ∧ t'.log = t.log := by
  cases stage with
  | namespaces =>
      rw [exec_run_namespaces, exec_namespaces] at h
      cases hrules : c.rules.isEmpty with
      | false =>
          rw [hrules] at h
          cases h
      | true =>
          rw [hrules] at h
          simp only [if_true] at h
          cases hanswer : t.faults.answer ⟨.list, .rule⟩ with
          | none =>
              rw [hanswer] at h
              cases h
          | some cause =>
              rw [hanswer] at h
              cases h
              exact ⟨⟨cause, rfl⟩, rfl, rfl⟩
  | pass p =>
      rw [show Stage.run table mode c (.pass p) = _ from p.run_eq table mode c,
        exec_reconcile] at h
      rcases hfetch : exec (p.store table).fetch t with ⟨cause | held, t₁⟩
      · have hshows := p.shows_fetch table hfetch
        rw [hfetch] at h
        cases h
        rw [Pass.store_element]
        exact ⟨⟨cause, rfl⟩, hshows.state, hshows.log⟩
      · -- once its elements are listed, a pass has an outcome
        rw [hfetch] at h
        cases h

/-! ## §4. A push runs its schedule. -/

section Schedule

variable (table : List String) (mode : Mode) (c : Config)

/-- Go on with the operations so far, or fail with the failures there are. -/
def conclude (o : Outcome) (operations : List Operation) : Run (List Operation) :=
  if o.failures.isEmpty then return operations ++ o.operations
  else throw (.mutations o.failures (operations ++ o.operations))

theorem throw_bind {α β : Type} (e : Error) (f : α → Run β) :
    (throw e : Run α) >>= f = throw e := rfl

theorem runStages_cons (stage : Stage) (rest : List Stage) (operations : List Operation) :
    runStages table mode c (stage :: rest) operations
      = stage.run table mode c >>= fun o => conclude o operations >>=
          runStages table mode c rest := by
  show (stage.run table mode c >>= fun o => _) = _
  refine congrArg _ (funext fun o => ?_)
  unfold conclude
  cases o.failures.isEmpty <;> rfl

theorem runStages_append (first : List Stage) :
    ∀ (rest : List Stage) (operations : List Operation),
      runStages table mode c (first ++ rest) operations
        = runStages table mode c first operations >>= runStages table mode c rest := by
  induction first with
  | nil =>
      intro rest operations
      exact (pure_bind operations _).symm
  | cons stage first ih =>
      intro rest operations
      rw [List.cons_append, runStages_cons, runStages_cons, bind_assoc]
      refine congrArg _ (funext fun o => ?_)
      rw [bind_assoc]
      refine congrArg _ (funext fun operations' => ?_)
      exact ih rest operations'

theorem conclude_ok {o : Outcome} (h : o.failures = []) (operations : List Operation) :
    conclude o operations = pure (operations ++ o.operations) := by
  unfold conclude
  rw [h]
  rfl

theorem conclude_failed {o : Outcome} (h : o.failures ≠ []) (operations : List Operation) :
    conclude o operations = throw (.mutations o.failures (operations ++ o.operations)) := by
  unfold conclude
  rw [if_neg]
  rwa [List.isEmpty_iff]

/-- What has no failure only adds its operations. -/
theorem conclude_append {o : Outcome} (h : o.failures = []) (rest : Outcome)
    (operations : List Operation) :
    conclude (o ++ rest) operations = conclude rest (operations ++ o.operations) := by
  unfold conclude
  rw [append_failures, append_operations, h, List.nil_append, List.append_assoc]

/-- What every stage keeps, stages in turn keep. -/
theorem runStages_keeps {R : Tenant → Tenant → Prop} (hrefl : ∀ t, R t t)
    (htrans : ∀ {t t' t''}, R t t' → R t' t'' → R t t'') (sts : List Stage) :
    ∀ operations : List Operation, (∀ stage ∈ sts, Keeps R (stage.run table mode c)) →
      Keeps R (runStages table mode c sts operations) := by
  induction sts with
  | nil => exact fun operations _ => Keeps.pure hrefl operations
  | cons stage rest ih =>
      intro operations hstages
      rw [runStages_cons]
      refine Keeps.bind (R := R) htrans (hstages stage List.mem_cons_self) fun o => ?_
      refine Keeps.bind (R := R) htrans ?_ fun operations' =>
        ih operations' fun stage' hstage' => hstages stage' (List.mem_cons_of_mem _ hstage')
      unfold conclude
      split
      · exact Keeps.pure hrefl _
      · exact Keeps.throw hrefl _

/-- Two tenants have the same rule namespaces. -/
def SameNamespaces (t t' : Tenant) : Prop := t'.state.rules.keys = t.state.rules.keys

/-- No stage makes or drops a namespace. -/
theorem runStages_namespaces (sts : List Stage) (operations : List Operation) :
    Keeps SameNamespaces (runStages table mode c sts operations) :=
  runStages_keeps table mode c (R := SameNamespaces) (fun _ => rfl) (fun h h' => Eq.trans h' h)
    sts operations fun stage _ t => (stage.run_confined table mode c t).namespaces

/-- The stages of a state depend on its namespaces only. -/
theorem stages_congr {s s' : State} (h : s'.rules.keys = s.rules.keys) :
    stages c s' = stages c s := by
  funext category
  unfold stages scope
  rw [h]

/-- The passes of a category, run as stages. -/
theorem runPasses_conclude (ps : List Pass) :
    ∀ operations : List Operation,
      (runPasses table mode c ps >>= fun o => conclude o operations)
        = runStages table mode c (ps.map Stage.pass) operations := by
  induction ps with
  | nil =>
      intro operations
      show (pure (operations ++ []) : Run (List Operation)) = pure operations
      rw [List.append_nil]
  | cons p ps ih =>
      intro operations
      rw [List.map_cons, runStages_cons]
      show (p.run table mode c >>= fun o =>
        if o.failures.isEmpty then runPasses table mode c ps >>= fun rest => pure (o ++ rest)
        else pure o) >>= (fun o => conclude o operations) = _
      rw [bind_assoc]
      refine congrArg _ (funext fun o => ?_)
      by_cases hnone : o.failures = []
      · -- the outcome of the rest is put behind that of the pass only in the end, but
        -- what is concluded of both is what is concluded of one after the other
        rw [if_pos (List.isEmpty_iff.2 hnone), bind_assoc, conclude_ok hnone, pure_bind, ← ih]
        refine congrArg _ (funext fun rest => ?_)
        rw [pure_bind, conclude_append hnone]
      · rw [if_neg (fun h => hnone (List.isEmpty_iff.1 h)), pure_bind, conclude_failed hnone,
          throw_bind]

/-- A category runs its stages, as many as the state has namespaces at that time. -/
theorem pushCategory_conclude (category : Category) (operations : List Operation) (t : Tenant) :
    exec (pushCategory table mode c category >>= fun o => conclude o operations) t
      = exec (runStages table mode c (stages c t.state category) operations) t := by
  have hpasses : ∀ ps : List Pass, passes c category = pure ps →
      stages c t.state category = ps.map Stage.pass →
      exec (pushCategory table mode c category >>= fun o => conclude o operations) t
        = exec (runStages table mode c (stages c t.state category) operations) t := by
    intro ps hps hstages
    unfold pushCategory
    rw [hps, pure_bind, runPasses_conclude, hstages]
  cases category with
  | rules =>
      show exec (((namespaces c >>= fun names => pure (names.map Pass.rules)) >>=
        runPasses table mode c) >>= fun o => conclude o operations) t = _
      rw [bind_assoc, bind_assoc, exec_bind, exec_namespaces]
      have hmap : ∀ names : List String, (names.map Pass.rules).map Stage.pass
          = names.map fun ns => Stage.pass (.rules ns) := fun names => List.map_map
      unfold stages scope
      cases hrules : c.rules.isEmpty with
      | false =>
          simp only [Bool.false_eq_true, if_false, List.nil_append]
          rw [pure_bind, runPasses_conclude, hmap]
      | true =>
          -- the tenant is asked first, which is a stage of its own without operations
          simp only [if_true]
          rw [List.singleton_append, runStages_cons, exec_bind, exec_run_namespaces,
            exec_namespaces, hrules]
          simp only [if_true]
          cases t.faults.answer ⟨.list, .rule⟩ with
          | some cause => rfl
          | none =>
              simp only
              rw [pure_bind, runPasses_conclude, hmap, conclude_ok rfl, pure_bind,
                List.append_nil]
  | _ => exact hpasses _ rfl rfl

theorem pushCategories_cons (category : Category) (categories : List Category)
    (operations : List Operation) :
    pushCategories table mode c (category :: categories) operations
      = (pushCategory table mode c category >>= fun o => conclude o operations) >>=
          pushCategories table mode c categories := by
  show (pushCategory table mode c category >>= fun o => _) = _
  rw [bind_assoc]
  refine congrArg _ (funext fun o => ?_)
  unfold conclude
  cases o.failures.isEmpty <;> rfl

/-- Categories in turn run their stages in turn. -/
theorem pushCategories_eq (categories : List Category) :
    ∀ (operations : List Operation) (t : Tenant),
      exec (pushCategories table mode c categories operations) t
        = exec (runStages table mode c (categories.flatMap (stages c t.state)) operations) t := by
  induction categories with
  | nil =>
      intro operations t
      rfl
  | cons category categories ih =>
      intro operations t
      rw [pushCategories_cons, exec_bind, pushCategory_conclude, List.flatMap_cons,
        runStages_append, exec_bind]
      have hkeys := runStages_namespaces table mode c (stages c t.state category) operations t
      rcases hfirst : exec (runStages table mode c (stages c t.state category) operations) t
        with ⟨e | operations', t'⟩
      · rfl
      · -- the namespaces are still those at the beginning
        rw [hfirst] at hkeys
        simp only
        rw [ih, stages_congr c hkeys]

/-- **A push is its schedule**, once something is selected and the configuration
can be pushed. -/
theorem exec_pushWith (o : Options) (t : Tenant) :
    exec (pushWith table o c) t =
      if o.categories.isEmpty then (.error .nothingSelected, t)
      else match invalid? table c o with
        | some why => (.error (.invalid why), t)
        | none => exec (runStages table o.mode c (schedule o c t.state) []) t := by
  unfold pushWith
  dsimp only
  cases o.categories.isEmpty with
  | true => rfl
  | false =>
      cases invalid? table c o with
      | some why => rfl
      | none => exact pushCategories_eq table o.mode c o.categories [] t

end Schedule

end TenantSync.Push
