/-
  TenantSync.Proofs.Push.Account
  ──────────────────────────────
  **WHAT A PASS GIVES ACCOUNT OF.**

  A pass that lists its store gives account of every element by name.  What it
  reports of a name is what became of the element of that name (`Told.ending`),
  an element it does not report was not there and is not (`Told.unnamed`), and
  what failed is among what it reports (`Told.failures`).

  If moreover the mode is to remove and replace, and nothing failed, the pass
  leaves exactly the desired elements (`converged_of_run`): every element that
  differs was among its decisions, and each decision without a failure came to
  the ending that was decided.
-/
import TenantSync.Proofs.Config.Content
import TenantSync.Proofs.Push.Stores

namespace TenantSync.Push

open Config Tenant

/-! ## §1. What is desired of a pass. -/

namespace Pass

/-- The pass is over elements that are held under their own names. -/
def ByName (p : Pass) : Prop := p ≠ .resources ∧ p ≠ .installationKeys

/-- All desired settings are ones that the tenant has. -/
def Covered (table : List String) (c : Config) (p : Pass) : Prop :=
  p = .orgValues → ∀ key, c.orgValues.contains key = true → key ∈ table

theorem identity_label (table : List String) {p : Pass} (hp : p ≠ .installationKeys)
    (name : String) (body : p.Body) : (p.store table).identity name body = p.label name := by
  cases p with
  | installationKeys => exact absurd rfl hp
  | _ => rfl

/-- Desired elements have identities of their own. -/
theorem identities_nodup (table : List String) {p : Pass} (hp : p ≠ .installationKeys)
    (m : NameMap p.Body) : (identities (p.store table) m.entries).Nodup := by
  have hids : identities (p.store table) m.entries = m.keys.map p.label := by
    unfold identities NameMap.keys
    rw [List.map_map]
    refine List.map_congr_left fun e _ => ?_
    exact identity_label table hp e.1 e.2
  rw [hids, List.nodup_iff_pairwise_ne, List.pairwise_map]
  exact (List.nodup_iff_pairwise_ne.1 m.keys_nodup).imp fun hne heq => hne (label_injective p heq)

theorem get?_desiredOrgValues (c : Config) (key : String) :
    (desiredOrgValues c).get? key = (c.orgValues.get? key).filter fun v => !v.isEmpty :=
  NameMap.get?_filter (fun _ (v : String) => !v.isEmpty) c.orgValues key

/-- A desired setting is one of the document that is not empty. -/
theorem desiredOrgValues_eq_some {c : Config} {key value : String} :
    (desiredOrgValues c).get? key = some value
      ↔ c.orgValues.get? key = some value ∧ value.isEmpty = false := by
  rw [get?_desiredOrgValues, Option.filter_eq_some_iff, Bool.not_eq_true']

/-- Whatever is desired makes an element. -/
theorem admits_desired {c : Config} {p : Pass} {name : String} {body : p.Body}
    (h : (p.desired c).get? name = some body) : p.Admits body := by
  cases p with
  | orgValues => exact (desiredOrgValues_eq_some.1 h).2
  | _ => trivial

theorem mem_table_of_desired {table : List String} {c : Config}
    (hcovered : Covered table c .orgValues) {key value : String}
    (h : (desiredOrgValues c).get? key = some value) : key ∈ table := by
  refine hcovered rfl key ?_
  unfold NameMap.contains
  rw [(desiredOrgValues_eq_some.1 h).1, Option.isSome_some]

/-- What is stored of a desired body has its content. -/
theorem same_stored (table : List String) (p : Pass) (name : String) (body : p.Body) :
    (p.store table).same body (p.stored name body) = true := by
  cases p with
  | rules ns => exact Rule.sameContent_renamed body name ns
  | _ => exact (store_compares table _).refl body

/-! ## §2. The decisions of a pass. -/

/-- What a pass decides if it lists its store in a state. -/
def decisions (table : List String) (mode : Mode) (c : Config) (p : Pass) (s : State) :
    List (Decision p.Body) :=
  plan (p.store table) mode (p.desired c).entries (p.listed table s)

section Decisions

variable {table : List String} {mode : Mode} {c : Config} {p : Pass} {s : State}
  {d : Decision p.Body} {name : String}

theorem decisions_ids_nodup (hp : p ≠ .installationKeys) :
    ((p.decisions table mode c s).map Decision.id).Nodup :=
  plan_ids_nodup _ _ _ _ (identities_nodup table hp _)

/-- A pass decides about desired elements by what is held under their names, and
about all other held ones. -/
theorem mem_decisions (hp : p ≠ .installationKeys) :
    d ∈ p.decisions table mode c s
      ↔ (∃ name body, (p.desired c).get? name = some body
          ∧ d = decision (p.store table) mode (p.label name) body
              ((p.listed table s).get? (p.label name)))
        ∨ ∃ name r, (p.listed table s).get? (p.label name) = some r
          ∧ (p.desired c).get? name = none ∧ d = dismissal mode (p.label name) r := by
  -- labels are injective, so an identity is desired exactly if its name is
  have hnot : ∀ name, p.label name ∉ identities (p.store table) (p.desired c).entries
      ↔ (p.desired c).get? name = none := by
    intro name
    rw [NameMap.get?_eq_none_iff]
    refine not_congr ?_
    unfold identities NameMap.keys
    simp only [List.mem_map, identity_label table hp]
    constructor
    · rintro ⟨e, he, heq⟩
      exact ⟨e, he, label_injective p heq⟩
    · rintro ⟨e, he, rfl⟩
      exact ⟨e, he, rfl⟩
  unfold decisions
  rw [mem_plan _ _ _ _ (identities_nodup table hp _)]
  simp only [identity_label table hp, ← NameMap.get?_eq_some_iff]
  refine or_congr Iff.rfl ?_
  constructor
  · rintro ⟨i, r, hget, hnin, rfl⟩
    obtain ⟨name, rfl, -⟩ := label_of_view (view_of_listed hget)
    exact ⟨name, r, hget, (hnot name).1 hnin, rfl⟩
  · rintro ⟨name, r, hget, hnone, rfl⟩
    exact ⟨p.label name, r, hget, (hnot name).2 hnone, rfl⟩

theorem desired_mem_decisions (hp : p ≠ .installationKeys) {body : p.Body}
    (h : (p.desired c).get? name = some body) :
    decision (p.store table) mode (p.label name) body ((p.listed table s).get? (p.label name))
      ∈ p.decisions table mode c s :=
  (mem_decisions hp).2 (.inl ⟨name, body, h, rfl⟩)

theorem dismissed_mem_decisions (hp : p ≠ .installationKeys) {r : Remote p.Body}
    (hlisted : (p.listed table s).get? (p.label name) = some r)
    (h : (p.desired c).get? name = none) :
    dismissal mode (p.label name) r ∈ p.decisions table mode c s :=
  (mem_decisions hp).2 (.inr ⟨name, r, hlisted, h, rfl⟩)

/-- A decision is about a name, and puts only the body into the store that is
desired under it. -/
theorem name_of_decision (hp : p ≠ .installationKeys) (hd : d ∈ p.decisions table mode c s) :
    ∃ name, d.id = p.label name ∧ ∀ body, d.body? = some body →
      (p.desired c).get? name = some body := by
  rcases (mem_decisions hp).1 hd with ⟨name, body, hdesired, rfl⟩ | ⟨name, r, -, -, rfl⟩
  · refine ⟨name, decision_id _ _ _ _ _, fun body' hbody' => ?_⟩
    unfold decision at hbody'
    cases hlisted : (p.listed table s).get? (p.label name) with
    | none =>
        rw [hlisted] at hbody'
        cases hbody'
        exact hdesired
    | some r =>
        rw [hlisted] at hbody'
        simp only at hbody'
        split at hbody' <;> cases hbody'
        exact hdesired
  · refine ⟨name, dismissal_id _ _ _, fun body hbody => ?_⟩
    unfold dismissal at hbody
    split at hbody <;> cases hbody

/-- The decisions of a pass fit the state that was listed. -/
theorem fits_of_decision (hp : p ≠ .installationKeys) (hcovered : p.Covered table c)
    (hd : d ∈ p.decisions table mode c s) : d.Fits p.view p.Admits s := by
  rcases (mem_decisions hp).1 hd with ⟨name, body, hdesired, rfl⟩ | ⟨name, r, hlisted, -, rfl⟩
  · have hadmits := admits_desired hdesired
    unfold decision
    cases hlisted : (p.listed table s).get? (p.label name) with
    | none =>
        refine ⟨?_, hadmits⟩
        cases hview : p.view s (p.label name) with
        | none => rfl
        | some r =>
            -- what is held and may be desired would have been listed
            have htable : p = .orgValues → p.label name ∈ table := by
              intro horg
              subst horg
              exact mem_table_of_desired hcovered hdesired
            rw [listed_of_view htable hview] at hlisted
            cases hlisted
    | some r =>
        simp only
        split
        · exact ⟨view_of_listed hlisted, hadmits⟩
        · exact True.intro
  · unfold dismissal
    split
    · exact view_of_listed hlisted
    · exact True.intro

end Decisions

/-! ## §3. The account of a pass. -/

/-- A pass tells what became of its elements: between two states, with what was
logged of it. -/
structure Told (c : Config) (p : Pass) (o : Outcome) (logged : List Mutation) (s s' : State) :
    Prop where
  /-- What is reported is of the kind of the pass and has a name. -/
  operations : ∀ op ∈ o.operations, op.element = p.element ∧ ∃ name, op.name = p.label name
  /-- What fails is reported. -/
  failures : ∀ f ∈ o.failures, f.element = p.element ∧ ∃ op ∈ o.operations, op.name = f.name
  /-- What is logged is reported. -/
  mutations : ∀ m ∈ logged, m.element = p.element ∧ ∃ op ∈ o.operations, op.name = m.name
  /-- What is reported of a name is what became of its element. -/
  ending : ∀ name, ∀ op ∈ o.operations, op.name = p.label name →
    Ending p.direct (((p.desired c).get? name).map (p.stored name)) op.added op.removed
      (o.failed (p.label name)) (p.held s name) (p.held s' name) (didTo (p.label name) logged)
  /-- What is not reported stays as it is. -/
  unnamed : ∀ name, (∀ op ∈ o.operations, op.name ≠ p.label name) →
    p.held s' name = p.held s name

/-- An account is one of the slice of the pass, whatever else changes. -/
theorem Told.congr {c : Config} {p : Pass} {o : Outcome} {logged : List Mutation}
    {s₀ s s' s₁ : State} (h : Told c p o logged s s') (hbefore : p.SameAt s₀ s)
    (hafter : p.SameAt s' s₁) : Told c p o logged s₀ s₁ := by
  have hs := hbefore.held
  have hs' := hafter.held
  refine ⟨h.operations, h.failures, h.mutations, fun name op hop hname => ?_, fun name hname => ?_⟩
  · rw [hs', ← hs]
    exact h.ending name op hop hname
  · rw [hs', ← hs]
    exact h.unnamed name hname

section Account

variable {table : List String} {mode : Mode} {c : Config} {p : Pass} {t t' : Tenant}
  {o : Outcome}

/-- A pass that succeeds has listed its store and enacted a plan. -/
theorem run_ok (h : exec (p.run table mode c) t = (.ok o, t')) :
    ∃ held t₁, exec (p.store table).fetch t = (.ok held, t₁)
      ∧ execState (enactAll (p.store table) mode
          (plan (p.store table) mode (p.desired c).entries held)) t₁ = (o, t') := by
  rw [run_eq, exec_reconcile] at h
  rcases hfetch : exec (p.store table).fetch t with ⟨cause | held, t₁⟩
  · rw [hfetch] at h
    cases h
  · rw [hfetch] at h
    cases h
    exact ⟨held, t₁, rfl, rfl⟩

/-- A pass that succeeds has enacted its decisions for the state it began in, if
it was not denied a setting. -/
theorem run_ok_decisions (hshown : t.faults.SettingsShown)
    (h : exec (p.run table mode c) t = (.ok o, t')) :
    ∃ t₁, t₁.state = t.state ∧ t₁.log = t.log
      ∧ execState (enactAll (p.store table) mode (p.decisions table mode c t.state)) t₁
          = (o, t') := by
  obtain ⟨held, t₁, hfetch, henact⟩ := run_ok h
  have hshows := shows_fetch table p hfetch
  obtain rfl := hshows.ok hshown held rfl
  exact ⟨t₁, hshows.state, hshows.log, henact⟩

/-- What a pass reports is what it decided. -/
theorem operations_of_run (hshown : t.faults.SettingsShown)
    (h : exec (p.run table mode c) t = (.ok o, t')) :
    o.operations
      = (p.decisions table mode c t.state).map (Decision.operation p.element) := by
  obtain ⟨t₁, -, -, henact⟩ := run_ok_decisions hshown h
  have hops := enactAll_operations (p.store table) mode (p.decisions table mode c t.state) t₁
  rw [henact, store_element] at hops
  exact hops

/-- **A pass gives a true account of its elements**, whichever of its calls fail. -/
theorem told_of_run (hp : p.ByName) (hcovered : p.Covered table c) (hdry : mode.dryRun = false)
    (hshown : t.faults.SettingsShown) (h : exec (p.run table mode c) t = (.ok o, t')) :
    ∃ logged, t'.log = t.log ++ logged ∧ Told c p o logged t.state t'.state := by
  have hops := operations_of_run hshown h
  have hmem : ∀ i, i ∈ (p.decisions table mode c t.state).map Decision.id →
      ∃ op ∈ o.operations, op.name = i := by
    intro i hi
    obtain ⟨d, hd, rfl⟩ := List.mem_map.1 hi
    refine ⟨d.operation p.element, ?_, d.operation_name p.element⟩
    rw [hops]
    exact List.mem_map_of_mem hd
  obtain ⟨t₁, hstate, hlog₁, henact⟩ := run_ok_decisions hshown h
  have hfits : ∀ d ∈ p.decisions table mode c t.state, d.Fits p.view p.Admits t₁.state := by
    intro d hd
    rw [hstate]
    exact fits_of_decision hp.2 hcovered hd
  obtain ⟨logged, henacted⟩ := enacted_of_enactAll (store_lawful table hp.1 hp.2) hdry _
    (decisions_ids_nodup hp.2) hfits henact
  refine ⟨logged, by rw [henacted.log, hlog₁], ?_, ?_, ?_, ?_, ?_⟩
  · intro op hop
    rw [hops] at hop
    obtain ⟨d, hd, rfl⟩ := List.mem_map.1 hop
    obtain ⟨name, hname, -⟩ := name_of_decision hp.2 hd
    exact ⟨d.operation_element p.element, name, (d.operation_name p.element).trans hname⟩
  · intro f hf
    have hfailed := enactAll_failures (p.store table) mode (p.decisions table mode c t.state) t₁ f
    rw [henact, store_element] at hfailed
    exact ⟨(hfailed hf).1, hmem _ (hfailed hf).2⟩
  · intro m hm
    obtain ⟨helement, hname⟩ := henacted.mutations m hm
    rw [store_element] at helement
    exact ⟨helement, hmem _ hname⟩
  · intro name op hop hname
    rw [hops] at hop
    obtain ⟨d, hd, rfl⟩ := List.mem_map.1 hop
    rw [Decision.operation_name] at hname
    obtain ⟨name', hname', hbody⟩ := name_of_decision hp.2 hd
    -- the body of the decision is the one desired under this very name
    obtain rfl : name' = name := label_injective p (hname'.symm.trans hname)
    have hwanted : ∀ body, d.body? = some body → ((p.desired c).get? name').map (p.stored name')
        = some (p.storedAs d.id body) := by
      intro body hb
      rw [hbody body hb, Option.map_some, hname, storedAs_label]
    have hending := henacted.ending d hd _ hwanted
    rw [hname, view_label, view_label, hstate, store_element] at hending
    exact hending
  · intro name hname
    rw [← view_label, ← view_label, ← hstate]
    refine henacted.others _ fun hi => ?_
    obtain ⟨op, hop, hopname⟩ := hmem _ hi
    exact hname op hop hopname

/-! ## §4. A pass that may do everything, and does. -/

/-- An element is held exactly if it is desired, and has the desired content then. -/
def Agrees {β : Type} (same : β → β → Bool) : Option β → Option (Remote β) → Prop
  | some body, some r => same body r.body = true
  | none, none => True
  | _, _ => False

/-- A state holds exactly the desired elements of a pass; of settings those of a
table count. -/
def Converged (table : List String) (c : Config) (p : Pass) (s : State) : Prop :=
  ∀ name, (p = .orgValues → name ∈ table) →
    Agrees (p.store table).same ((p.desired c).get? name) (p.held s name)

section Unfailing

variable {s s' : State} {logged : List Mutation} {name : String}
  (htold : Told c p o logged s s')
  (hops : o.operations = (p.decisions table mode c s).map (Decision.operation p.element))
  (hok : o.failures = [])
include htold hops hok

/-- Every decision came to an ending of its own kind, without a failure. -/
theorem ending_of_decision {d : Decision p.Body} (hd : d ∈ p.decisions table mode c s)
    (hname : d.id = p.label name) :
    Ending p.direct (((p.desired c).get? name).map (p.stored name))
      (d.operation p.element).added (d.operation p.element).removed false
      (p.held s name) (p.held s' name) (didTo (p.label name) logged) := by
  have hmem : d.operation p.element ∈ o.operations := hops ▸ List.mem_map_of_mem hd
  have hfailed : o.failed (p.label name) = false := failed_eq_false (by simp [hok])
  rw [← hfailed]
  exact htold.ending name _ hmem ((d.operation_name p.element).trans hname)

/-- What is desired is held: it was put there, or it was there already, and then with
the desired content unless the mode lets it differ. -/
theorem held_of_desired (hp : p ≠ .installationKeys) {body : p.Body}
    (hdesired : (p.desired c).get? name = some body) :
    ∃ r, p.held s' name = some r
      ∧ (mode.replacesDrift = true → (p.store table).same body r.body = true) := by
  have hending := ending_of_decision htold hops hok (desired_mem_decisions hp hdesired)
    (decision_id _ _ _ _ _)
  rw [hdesired, Option.map_some] at hending
  -- an addition and a replacement both leave the stored body
  have hput : ∀ {removed}, Ending p.direct (some (p.stored name body)) true removed false
      (p.held s name) (p.held s' name) (didTo (p.label name) logged) →
      ∃ r, p.held s' name = some r
        ∧ (mode.replacesDrift = true → (p.store table).same body r.body = true) := by
    intro removed hending
    obtain ⟨b, info, hb, hafter⟩ := hending.holds_wanted
    cases hb
    exact ⟨_, hafter, fun _ => same_stored table p name body⟩
  cases hlisted : (p.listed table s).get? (p.label name) with
  | none =>
      rw [hlisted] at hending
      exact hput hending
  | some r =>
      rw [hlisted] at hending
      have hheld : p.held s name = some r := by
        rw [← view_label, view_of_listed hlisted]
      cases hsame : (p.store table).same body r.body with
      | true =>
          rw [decision_same hsame] at hending
          exact ⟨r, hending.unchanged.trans hheld, fun _ => hsame⟩
      | false =>
          cases hmode : mode.replacesDrift with
          | true =>
              rw [decision_drifted hsame hmode] at hending
              exact hmode ▸ hput hending
          | false =>
              rw [decision_tolerated hmode] at hending
              exact ⟨r, hending.unchanged.trans hheld, fun h => nomatch h⟩

/-- What is not desired is not held: it was removed, or was not there to be decided about. -/
theorem held_of_not_desired (hp : p ≠ .installationKeys) (hforce : mode.force = true)
    (htable : p = .orgValues → p.label name ∈ table)
    (hdesired : (p.desired c).get? name = none) : p.held s' name = none := by
  cases hview : p.view s (p.label name) with
  | some r =>
      have hending := ending_of_decision htold hops hok
        (dismissed_mem_decisions hp (listed_of_view htable hview) hdesired) (dismissal_id _ _ _)
      unfold dismissal at hending
      rw [if_pos hforce] at hending
      exact hending.gone
  | none =>
      -- it was not there, and no operation is about it
      rw [htold.unnamed name, ← view_label, hview]
      intro op hop hname
      rw [hops] at hop
      obtain ⟨d, hd, rfl⟩ := List.mem_map.1 hop
      rw [Decision.operation_name] at hname
      rcases (mem_decisions hp).1 hd with ⟨n, body, hbody, rfl⟩ | ⟨n, r, hlisted, -, rfl⟩
      · -- a decision about a desired element is about another name
        rw [decision_id] at hname
        rw [label_injective p hname, hdesired] at hbody
        cases hbody
      · rw [dismissal_id] at hname
        rw [hname, listed_eq_none hview] at hlisted
        cases hlisted

end Unfailing

/-- **A pass that may remove and replace, and has no failure, converges.** -/
theorem converged_of_run (hp : p.ByName) (hcovered : p.Covered table c)
    (hdry : mode.dryRun = false) (hforce : mode.force = true) (hdrift : mode.drift = .replace)
    (hshown : t.faults.SettingsShown) (h : exec (p.run table mode c) t = (.ok o, t'))
    (hok : o.failures = []) : Converged table c p t'.state := by
  obtain ⟨logged, -, htold⟩ := told_of_run hp hcovered hdry hshown h
  have hops := operations_of_run hshown h
  have hmode : mode.replacesDrift = true := by simp [Mode.replacesDrift, hforce, hdrift]
  intro name htable
  cases hdesired : (p.desired c).get? name with
  | some body =>
      obtain ⟨r, hr, hsame⟩ := held_of_desired htold hops hok hp.2 hdesired
      rw [hr]
      exact hsame hmode
  | none =>
      have htable' : p = .orgValues → p.label name ∈ table := by
        intro horg
        subst horg
        exact htable rfl
      rw [held_of_not_desired htold hops hok hp.2 hforce htable' hdesired]
      trivial

end Account

end Pass

end TenantSync.Push
