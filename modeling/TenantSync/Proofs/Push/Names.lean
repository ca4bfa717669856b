/-
  TenantSync.Proofs.Push.Names
  ────────────────────────────
  **WHEN THE OPERATIONS OF A REPORT CAN BE TOLD APART.**

  An operation is known by its kind of element and a name.  The operations of one
  pass have names of their own, and different passes are over different kinds of
  elements — but for the passes over rules, one for each namespace, whose elements
  all are rules and whose names are put together:

      namespace / rule

  So a report is ambiguous exactly if rules of two namespaces come to one text
  (`operations_distinct`).  It takes a slash in a namespace to make one
  (`RulesClash.slash`).
-/
import Mathlib.Data.List.Pairwise
import TenantSync.Proofs.Push.Subscriptions

namespace TenantSync.Push

open Config Tenant

/-- What an operation is known by. -/
def Operation.key (op : Operation) : ElementType × String := (op.element, op.name)

/-! ## §1. The names of one pass. -/

/-- Keys of a document that do not share identities have identities of their own. -/
theorem keyIdentities_nodup {c : Config} (h : ¬SharesIdentity c) :
    (identities Store.installationKeys c.installationKeys.entries).Nodup := by
  unfold identities
  rw [List.nodup_iff_pairwise_ne, List.pairwise_map]
  refine c.installationKeys.ascending.imp_of_mem fun {a b} ha hb hlt heq => h ?_
  refine ⟨a.1, a.2, b.1, b.2, NameMap.get?_eq_some_iff.2 ha, NameMap.get?_eq_some_iff.2 hb, ?_, heq⟩
  exact fun hname => String.lt_irrefl b.1 (hname ▸ hlt)

namespace Pass

variable {table : List String} {mode : Mode} {c : Config} {p : Pass} {t t' : Tenant} {o : Outcome}

/-- What can be pushed has an identity for each desired element of a pass. -/
theorem identities_nodup_of_pushable {options : Options} (hpushable : ¬Unpushable table options c)
    (hselected : options.selected (Stage.pass p).category = true) :
    (identities (p.store table) (p.desired c).entries).Nodup := by
  by_cases hp : p = .installationKeys
  · subst hp
    exact keyIdentities_nodup fun hshares => hpushable (.inr ⟨hselected, hshares⟩)
  · exact identities_nodup table hp _

/-- What a pass reports is named by the identities that are desired or were listed. -/
theorem names_of_run (h : exec (p.run table mode c) t = (.ok o, t')) :
    ∃ held t₁, exec (p.store table).fetch t = (.ok held, t₁)
      ∧ o.operations.map Operation.name
          = (plan (p.store table) mode (p.desired c).entries held).map Decision.id
      ∧ ∀ op ∈ o.operations, op.element = p.element := by
  obtain ⟨held, t₁, hfetch, henact⟩ := run_ok h
  have hops := enactAll_operations (p.store table) mode
    (plan (p.store table) mode (p.desired c).entries held) t₁
  rw [henact, store_element] at hops
  refine ⟨held, t₁, hfetch, ?_, fun op hop => ?_⟩
  · rw [hops, List.map_map]
    exact List.map_congr_left fun d _ => d.operation_name p.element
  · rw [hops] at hop
    obtain ⟨d, -, rfl⟩ := List.mem_map.1 hop
    exact d.operation_element p.element

/-- The operations of one pass can be told apart. -/
theorem keys_nodup_of_run (hids : (identities (p.store table) (p.desired c).entries).Nodup)
    (h : exec (p.run table mode c) t = (.ok o, t')) : (o.operations.map Operation.key).Nodup := by
  obtain ⟨held, t₁, -, hnames, -⟩ := names_of_run h
  have hnodup : (o.operations.map Operation.name).Nodup := by
    rw [hnames]
    exact plan_ids_nodup _ _ _ held hids
  rw [List.nodup_iff_pairwise_ne, List.pairwise_map] at hnodup ⊢
  exact hnodup.imp fun hne heq => hne (congrArg Prod.snd heq)

/-- Passes over one kind of elements are one, or are over rules. -/
theorem eq_or_rules_of_element {p q : Pass} (h : p.element = q.element) :
    p = q ∨ ∃ ns ns', p = .rules ns ∧ q = .rules ns' := by
  cases p <;> cases q <;> first | exact .inl rfl | exact .inr ⟨_, _, rfl, rfl⟩ | cases h

end Pass

/-! ## §2. The names of rules. -/

/-- A rule that a pass over a namespace reports on: it is desired there, or held. -/
def ReportedRule (c : Config) (s : State) (ns rule : String) : Prop :=
  rule ∈ (rulesOf c ns).keys ∨ rule ∈ ((s.rules.get? ns).getD .empty).keys

/-- Rules of two namespaces in scope come to one name. -/
def RulesClash (c : Config) (s : State) : Prop :=
  ∃ ns ∈ scope c s, ∃ ns' ∈ scope c s, ns ≠ ns' ∧ ∃ rule rule', ReportedRule c s ns rule
    ∧ ReportedRule c s ns' rule' ∧ Store.ruleName ns rule = Store.ruleName ns' rule'

/-- One of the two namespaces has a slash in it. -/
theorem RulesClash.slash {c : Config} {s : State} (h : RulesClash c s) :
    ∃ ns ∈ scope c s, '/' ∈ ns.toList := by
  obtain ⟨ns, hns, ns', hns', hne, rule, rule', -, -, hname⟩ := h
  refine Classical.byContradiction fun hnone => ?_
  have hslash : ∀ ns ∈ scope c s, '/' ∉ ns.toList := fun ns hns h => hnone ⟨ns, hns, h⟩
  -- without a slash, a name is taken apart into its namespace and its rule
  have hfirst : Store.splitResource (Store.ruleName ns rule) = .ok (ns, rule) :=
    Store.splitResource_eq_ok.2 ⟨rfl, hslash ns hns⟩
  have hsecond : Store.splitResource (Store.ruleName ns rule) = .ok (ns', rule') :=
    Store.splitResource_eq_ok.2 ⟨hname, hslash ns' hns'⟩
  cases hfirst.symm.trans hsecond
  exact hne rfl

/-- Entries under the names of rules. -/
theorem mem_map_ruleName {α : Type} {m : NameMap α} {ns name : String} :
    name ∈ m.entries.map (fun e => Store.ruleName ns e.1)
      ↔ ∃ rule, rule ∈ m.keys ∧ name = Store.ruleName ns rule := by
  unfold NameMap.keys
  rw [List.mem_map]
  constructor
  · rintro ⟨e, he, rfl⟩
    exact ⟨e.1, List.mem_map_of_mem he, rfl⟩
  · rintro ⟨rule, hrule, rfl⟩
    obtain ⟨e, he, rfl⟩ := List.mem_map.1 hrule
    exact ⟨e, he, rfl⟩

/-- A pass over rules is scheduled for a namespace in scope. -/
theorem mem_scope_of_schedule {o : Options} {c : Config} {s : State} {ns : String}
    (h : .pass (.rules ns) ∈ schedule o c s) : ns ∈ scope c s := by
  obtain ⟨category, -, hstage⟩ := List.mem_flatMap.1 h
  obtain rfl : Category.rules = category := category_of_mem_stages hstage
  rcases List.mem_append.1 hstage with hstage | hstage
  · split at hstage
    · cases List.mem_singleton.1 hstage
    · cases hstage
  · obtain ⟨ns', hns', heq⟩ := List.mem_map.1 hstage
    cases heq
    exact hns'

/-- A pass over a namespace names the rules that it reports on. -/
theorem mem_names_of_rules {table : List String} {mode : Mode} {c : Config} {ns name : String}
    {t t' : Tenant} {o : Outcome} (h : exec (Pass.run table mode c (.rules ns)) t = (.ok o, t')) :
    name ∈ o.operations.map Operation.name
      ↔ ∃ rule, ReportedRule c t.state ns rule ∧ name = Store.ruleName ns rule := by
  obtain ⟨held, t₁, hfetch, hnames, -⟩ := Pass.names_of_run h
  rw [Pass.exec_fetch table (p := .rules ns) (by simp)] at hfetch
  obtain ⟨rfl, -⟩ := reading_ok hfetch
  have hlisted : name ∈ (Pass.listed table (.rules ns) t.state).keys
      ↔ ∃ rule, rule ∈ ((t.state.rules.get? ns).getD .empty).keys
          ∧ name = Store.ruleName ns rule := by
    show name ∈ (NameMap.ofList _).keys ↔ _
    rw [NameMap.mem_keys_ofList, List.map_map]
    exact mem_map_ruleName
  have hdesired : name ∈ identities (Pass.store table (.rules ns)) (rulesOf c ns).entries
      ↔ ∃ rule, rule ∈ (rulesOf c ns).keys ∧ name = Store.ruleName ns rule := mem_map_ruleName
  rw [hnames, mem_plan_ids, hlisted]
  refine (or_congr_left hdesired).trans ?_
  rw [← exists_or]
  exact exists_congr fun rule => or_and_right.symm

/-! ## §3. The operations of a push. -/

section Push

variable {table : List String} {o : Options} {c : Config} {t t' : Tenant}

/-- Every visit was made, from some state to another. -/
theorem Ran.run {mode : Mode} {visits : List Visit} (h : Ran table mode c t visits t') :
    ∀ v ∈ visits, ∃ t₁ t₂, exec (v.stage.run table mode c) t₁ = (.ok v.outcome, t₂) := by
  induction h with
  | nil => exact fun _ hv => nomatch hv
  | cons hrun _ _ ih => exact List.forall_mem_cons.2 ⟨⟨_, _, hrun⟩, ih⟩

/-- The operations of visits can be told apart if those of each visit can, and no two
visits have one in common. -/
theorem keys_nodup_operationsOf {visits : List Visit} :
    ((operationsOf visits).map Operation.key).Nodup
      ↔ (∀ v ∈ visits, (v.outcome.operations.map Operation.key).Nodup)
        ∧ visits.Pairwise fun v w => ∀ a ∈ v.outcome.operations, ∀ b ∈ w.outcome.operations,
            a.key ≠ b.key := by
  simp only [operationsOf, List.nodup_iff_pairwise_ne, List.pairwise_map, List.pairwise_flatMap]

/-- What the visits of a push report, seen from the state it began in. -/
structure Named (table : List String) (c : Config) (s : State) (visits : List Visit) : Prop where
  distinct : (visits.map Visit.stage).Nodup
  /-- Asking for namespaces reports nothing. -/
  namespaces : ∀ v ∈ visits, v.stage = .namespaces → v.outcome.operations = []
  element : ∀ v ∈ visits, ∀ p, v.stage = .pass p → ∀ op ∈ v.outcome.operations,
    op.element = p.element
  within : ∀ v ∈ visits, (v.outcome.operations.map Operation.key).Nodup
  rules : ∀ v ∈ visits, ∀ ns, v.stage = .pass (.rules ns) → ns ∈ scope c s
    ∧ ∀ name, name ∈ v.outcome.operations.map Operation.name
        ↔ ∃ rule, ReportedRule c s ns rule ∧ name = Store.ruleName ns rule

theorem named_of_visits {visits : List Visit} {rest : List Stage}
    (hran : Ran table o.mode c t visits t') (hpushable : ¬Unpushable table o c)
    (hsts : schedule o c t.state = visits.map Visit.stage ++ rest) :
    Named table c t.state visits := by
  have hdistinct : (visits.map Visit.stage).Nodup := by
    have hnodup := schedule_nodup o c t.state
    rw [hsts] at hnodup
    exact (List.nodup_append.1 hnodup).1
  have hscheduled : ∀ v ∈ visits, v.stage ∈ schedule o c t.state := by
    intro v hv
    rw [hsts]
    exact List.mem_append_left _ (List.mem_map_of_mem hv)
  have hnamespaces : ∀ v ∈ visits, v.stage = .namespaces → v.outcome.operations = [] := by
    intro v hv hstage
    obtain ⟨t₁, t₂, hrun⟩ := hran.run v hv
    rw [hstage] at hrun
    rw [(run_namespaces_ok hrun).1]
  refine ⟨hdistinct, hnamespaces, fun v hv p hp op hop => ?_, fun v hv => ?_,
    fun v hv ns hns => ?_⟩
  · obtain ⟨t₁, t₂, hrun, -⟩ := hran.visit hdistinct hv hp
    obtain ⟨-, -, -, -, helement⟩ := Pass.names_of_run hrun
    exact helement op hop
  · cases hstage : v.stage with
    | namespaces =>
        rw [hnamespaces v hv hstage]
        exact List.nodup_nil
    | pass p =>
        obtain ⟨t₁, t₂, hrun, -⟩ := hran.visit hdistinct hv hstage
        have hselected := selected_of_mem_schedule (hscheduled v hv)
        rw [hstage] at hselected
        exact Pass.keys_nodup_of_run (Pass.identities_nodup_of_pushable hpushable hselected) hrun
  · obtain ⟨t₁, t₂, hrun, -, hbefore, -⟩ := hran.visit hdistinct hv hns
    have hscope : .pass (.rules ns) ∈ schedule o c t.state := hns ▸ hscheduled v hv
    refine ⟨?_, fun name => ?_⟩
    · exact mem_scope_of_schedule hscope
    · have hreported : ReportedRule c t₁.state ns = ReportedRule c t.state ns := by
        funext rule
        unfold ReportedRule
        rw [show t₁.state.rules.get? ns = t.state.rules.get? ns from hbefore]
      rw [mem_names_of_rules hrun, hreported]

/-- Two visits that report under one key are passes over rules that clash. -/
theorem Named.clash {s : State} {visits : List Visit} (h : Named table c s visits) {v w : Visit}
    (hv : v ∈ visits) (hw : w ∈ visits) (hne : v.stage ≠ w.stage) {a b : Operation}
    (ha : a ∈ v.outcome.operations) (hb : b ∈ w.outcome.operations) (hkey : a.key = b.key) :
    (∃ ns, v.stage = .pass (.rules ns)) ∧ RulesClash c s := by
  have hnonempty : ∀ {v : Visit} {a : Operation}, v ∈ visits → a ∈ v.outcome.operations →
      ∃ p, v.stage = .pass p := by
    intro v a hv ha
    cases hstage : v.stage with
    | namespaces =>
        rw [h.namespaces v hv hstage] at ha
        cases ha
    | pass p => exact ⟨p, rfl⟩
  obtain ⟨p, hp⟩ := hnonempty hv ha
  obtain ⟨q, hq⟩ := hnonempty hw hb
  have helement : p.element = q.element := by
    rw [← h.element v hv p hp a ha, ← h.element w hw q hq b hb]
    exact congrArg Prod.fst hkey
  rcases Pass.eq_or_rules_of_element helement with rfl | ⟨ns, ns', rfl, rfl⟩
  · exact absurd (hp.trans hq.symm) hne
  · obtain ⟨hns, hnames⟩ := h.rules v hv ns hp
    obtain ⟨hns', hnames'⟩ := h.rules w hw ns' hq
    obtain ⟨rule, hrule, hname⟩ := (hnames a.name).1 (List.mem_map_of_mem ha)
    obtain ⟨rule', hrule', hname'⟩ := (hnames' b.name).1 (List.mem_map_of_mem hb)
    refine ⟨⟨ns, hp⟩, ns, hns, ns', hns', ?_, rule, rule', hrule, hrule', ?_⟩
    · rintro rfl
      exact hne (hp.trans hq.symm)
    · rw [← hname, ← hname']
      exact congrArg Prod.snd hkey

/-- Rules that clash make two visits report under one key, where both are visited. -/
theorem Named.ambiguous {s : State} {visits : List Visit} (h : Named table c s visits)
    (hall : ∀ ns ∈ scope c s, .pass (.rules ns) ∈ visits.map Visit.stage)
    (hclash : RulesClash c s) : ¬((operationsOf visits).map Operation.key).Nodup := by
  obtain ⟨ns, hns, ns', hns', hne, rule, rule', hrule, hrule', hname⟩ := hclash
  obtain ⟨v, hv, hstage⟩ := List.mem_map.1 (hall ns hns)
  obtain ⟨w, hw, hstage'⟩ := List.mem_map.1 (hall ns' hns')
  obtain ⟨a, ha, haname⟩ := List.mem_map.1 (((h.rules v hv ns hstage).2 _).2 ⟨rule, hrule, rfl⟩)
  obtain ⟨b, hb, hbname⟩ := List.mem_map.1 (((h.rules w hw ns' hstage').2 _).2 ⟨rule', hrule', rfl⟩)
  have hkey : a.key = b.key := by
    refine Prod.ext ?_ (haname.trans (hname.trans hbname.symm))
    exact (h.element v hv _ hstage a ha).trans (h.element w hw _ hstage' b hb).symm
  intro hnodup
  have hacross := (keys_nodup_operationsOf.1 hnodup).2
  -- it does not matter which of the two visits was made first
  have hsymm : Std.Symm fun v w : Visit => ∀ a ∈ v.outcome.operations,
      ∀ b ∈ w.outcome.operations, a.key ≠ b.key :=
    ⟨fun _ _ h a ha b hb heq => h b hb a ha heq.symm⟩
  refine hacross.forall hv hw (fun hvw => hne ?_) a ha b hb hkey
  subst hvw
  cases hstage.symm.trans hstage'
  rfl

/-- **The operations of a report can be told apart** by kind and name, whatever fails, unless
rules of two namespaces in scope come to one name; and where they do, a push over rules
that succeeds reports two operations under it. -/
theorem operations_distinct {r : Except Error (List Operation)} {operations : List Operation}
    {failures : List Failure} (h : exec (pushWith table o c) t = (r, t'))
    (hreports : Reports r operations failures) :
    (¬(o.selected .rules = true ∧ RulesClash c t.state) →
      (operations.map Operation.key).Nodup)
    ∧ (r = .ok operations → o.selected .rules = true → RulesClash c t.state →
      ¬(operations.map Operation.key).Nodup) := by
  constructor
  · intro hnone
    obtain ⟨visits, rest, hran, hpushable, hsts, rfl, -⟩ := visits_of_push h hreports
    have hnamed := named_of_visits hran hpushable hsts
    refine keys_nodup_operationsOf.2 ⟨hnamed.within, ?_⟩
    have hdistinct := hnamed.distinct
    rw [List.nodup_iff_pairwise_ne, List.pairwise_map] at hdistinct
    refine hdistinct.imp_of_mem fun {v w} hv hw hne a ha b hb hkey => hnone ?_
    obtain ⟨⟨ns, hstage⟩, hclash⟩ := hnamed.clash hv hw hne ha hb hkey
    have hscheduled : v.stage ∈ schedule o c t.state := by
      rw [hsts]
      exact List.mem_append_left _ (List.mem_map_of_mem hv)
    rw [hstage] at hscheduled
    exact ⟨selected_of_mem_schedule hscheduled, hclash⟩
  · rintro rfl hrules hclash
    rcases push_cases h with ⟨-, hr, -⟩ | ⟨-, -, ⟨why, hr⟩, -⟩ | ⟨-, hpushable, hfinish⟩
    · cases hr
    · cases hr
    · cases hfinish with
      | completed visits hsts hran hclean =>
          have hnamed := named_of_visits hran hpushable (hsts.trans (List.append_nil _).symm)
          refine hnamed.ambiguous (fun ns hns => ?_) hclash
          rw [← hsts]
          exact mem_schedule hrules (List.mem_append_right _ (List.mem_map_of_mem hns))

/-- One name in two namespaces makes two names, and a rule and an output may share one. -/
theorem operations_distinct_mixed :
    let o : Options := ⟨{ force := true, dryRun := true }, fun c => c == .rules || c == .outputs⟩
    let c : Config :=
      { rules := .ofList [("b", { ruleNamespace := "x" }), ("c", { ruleNamespace := "y" })]
        outputs := .ofList [("x/b", {})] }
    let t : Tenant :=
      { state := { rules := .ofList [("x", .ofList [("c", ⟨{}, {}⟩)])] }, now := ⟨0, 0⟩ }
    let operations : List Operation :=
      [.add .rule "x/b", .remove .rule "x/c", .add .rule "y/c", .add .output "x/b"]
    (exec (pushWith [] o c) t).1 = .ok operations
      ∧ ¬(o.selected .rules = true ∧ RulesClash c t.state)
      ∧ (operations.map Operation.key).Nodup := by
  intro o c t operations
  have hok : (exec (pushWith [] o c) t).1 = .ok operations :=
    eq_ok_of_toOption (by decide +kernel)
  have hscope : ∀ ns ∈ scope c t.state, '/' ∉ ns.toList := by decide +kernel
  have hnone : ¬(o.selected .rules = true ∧ RulesClash c t.state) := by
    rintro ⟨-, hclash⟩
    obtain ⟨ns, hns, hslash⟩ := hclash.slash
    exact hscope ns hns hslash
  have hpush : exec (pushWith [] o c) t = (.ok operations, (exec (pushWith [] o c) t).2) :=
    Prod.ext hok rfl
  exact ⟨hok, hnone, (operations_distinct hpush (.inl ⟨rfl, rfl⟩)).1 hnone⟩

/-- Two rules that are added in namespaces of which one has a slash are reported alike. -/
theorem rules_ambiguous :
    let o : Options := ⟨{ dryRun := true }, fun c => c == .rules⟩
    let c : Config :=
      { rules := .ofList [("b/c", { ruleNamespace := "a" }), ("c", { ruleNamespace := "a/b" })] }
    let operations : List Operation := [.add .rule "a/b/c", .add .rule "a/b/c"]
    (exec (pushWith [] o c) { now := ⟨0, 0⟩ }).1 = .ok operations
      ∧ ¬(operations.map Operation.key).Nodup := by
  intro o c operations
  exact ⟨eq_ok_of_toOption (by decide +kernel), by decide⟩

end Push

end TenantSync.Push
