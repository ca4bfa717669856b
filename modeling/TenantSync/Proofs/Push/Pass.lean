/-
  TenantSync.Proofs.Push.Pass
  ───────────────────────────
  **NO PASS TOUCHES WHAT ANOTHER ONE IS ABOUT.**

  Each pass is one reconciliation of one store, and the stores divide a state
  among them: every pass has a slice of its own,

      resources            the subscriptions
      rules ns             the rules of one namespace
      a plain section      that section
      installation keys    the keys
      settings             the settings

  Whatever a call of a store does, and whether it succeeds or not, it leaves the
  slices of all other passes alone, makes and drops no namespace, counts against
  faults of its own kind of elements only, and adds to the log
  (`store_within`).  Hence a pass finds for itself what was there before the
  passes in front of it.
-/
import TenantSync.Proofs.Config.Content
import TenantSync.Proofs.Push.Ending
import TenantSync.Proofs.Tenant.Calls
import TenantSync.Push.Run

namespace TenantSync.Push

open Config Tenant

namespace Pass

/-! ## §1. What a pass is about. -/

/-- The bodies of the elements of a pass. -/
@[reducible] def Body : Pass → Type
  | .resources => Unit
  | .rules _ => Rule
  | .falsePositives => FalsePositive
  | .outputs => Output
  | .integrity => IntegrityRule
  | .exfilWatches => ExfilWatch
  | .exfilEvents => ExfilEvent
  | .artifacts => ArtifactRule
  | .yaraSources => YaraSource
  | .yaraRules => YaraRule
  | .installationKeys => InstallationKey
  | .orgValues => String

/-- The kind of elements of a pass. -/
def element : Pass → ElementType
  | .resources => .resource
  | .rules _ => .rule
  | .falsePositives => .falsePositive
  | .outputs => .output
  | .integrity => .integrity
  | .exfilWatches => .exfilWatch
  | .exfilEvents => .exfilEvent
  | .artifacts => .artifact
  | .yaraSources => .yaraSource
  | .yaraRules => .yaraRule
  | .installationKeys => .installationKey
  | .orgValues => .orgValue

/-- The section that a pass is about, if it is a plain one. -/
def section? : (p : Pass) → Option (Section p.Body)
  | .falsePositives => some .falsePositives
  | .outputs => some .outputs
  | .integrity => some .integrity
  | .exfilWatches => some .exfilWatches
  | .exfilEvents => some .exfilEvents
  | .artifacts => some .artifacts
  | .yaraSources => some .yaraSources
  | .yaraRules => some .yaraRules
  | .resources | .rules _ | .installationKeys | .orgValues => none

/-- The store of a pass. -/
def store (table : List String) : (p : Pass) → Store Tenant p.Body
  | .resources => .resources
  | .rules ns => .rules ns
  | .falsePositives => .plain .falsePositives
  | .outputs => .plain .outputs
  | .integrity => .plain .integrity
  | .exfilWatches => .plain .exfilWatches
  | .exfilEvents => .plain .exfilEvents
  | .artifacts => .plain .artifacts
  | .yaraSources => .plain .yaraSources
  | .yaraRules => .plain .yaraRules
  | .installationKeys => .installationKeys
  | .orgValues => .orgValues table

/-- The elements that a document desires of a pass. -/
def desired (c : Config) : (p : Pass) → NameMap p.Body
  | .resources => desiredResources c
  | .rules ns => rulesOf c ns
  | .falsePositives => c.falsePositives
  | .outputs => c.outputs
  | .integrity => c.integrity
  | .exfilWatches => c.exfil.watches
  | .exfilEvents => c.exfil.events
  | .artifacts => c.artifacts
  | .yaraSources => c.yara.sources
  | .yaraRules => c.yara.rules
  | .installationKeys => c.installationKeys
  | .orgValues => desiredOrgValues c

/-- A pass reconciles its store with what is desired of it. -/
theorem run_eq (table : List String) (mode : Mode) (c : Config) (p : Pass) :
    p.run table mode c = reconcile (p.store table) mode (p.desired c) := by
  cases p <;> rfl

@[simp] theorem store_element (table : List String) (p : Pass) :
    (p.store table).element = p.element := by
  cases p <;> rfl

theorem store_plain (table : List String) {p : Pass} {s : Section p.Body}
    (h : p.section? = some s) : p.store table = .plain s := by
  cases p <;> cases h <;> rfl

/-- Every store compares contents by what they are. -/
theorem store_compares (table : List String) (p : Pass) : Compares (p.store table).same := by
  cases p with
  | resources => exact ⟨fun _ => rfl, fun _ => rfl, fun _ _ => rfl⟩
  | rules ns => exact Rule.compares
  | falsePositives => exact FalsePositive.compares
  | outputs => exact Output.compares
  | integrity => exact IntegrityRule.compares
  | exfilWatches => exact ExfilWatch.compares
  | exfilEvents => exact ExfilEvent.compares
  | artifacts => exact ArtifactRule.compares
  | yaraSources => exact YaraSource.compares
  | yaraRules => exact YaraRule.compares
  | installationKeys => exact InstallationKey.compares
  | orgValues => exact Compares.beq (α := String)

theorem section_element {p : Pass} {s : Section p.Body} (h : p.section? = some s) :
    s.element = p.element := by
  cases p <;> cases h <;> rfl

/-! ## §2. Slices of a state. -/

/-- Two states agree on what a pass is about. -/
def SameAt : Pass → State → State → Prop
  | .resources, s, s' => s'.resources = s.resources
  | .rules ns, s, s' => s'.rules.get? ns = s.rules.get? ns
  | .falsePositives, s, s' => s'.falsePositives = s.falsePositives
  | .outputs, s, s' => s'.outputs = s.outputs
  | .integrity, s, s' => s'.integrity = s.integrity
  | .exfilWatches, s, s' => s'.exfilWatches = s.exfilWatches
  | .exfilEvents, s, s' => s'.exfilEvents = s.exfilEvents
  | .artifacts, s, s' => s'.artifacts = s.artifacts
  | .yaraSources, s, s' => s'.yaraSources = s.yaraSources
  | .yaraRules, s, s' => s'.yaraRules = s.yaraRules
  | .installationKeys, s, s' => s'.installationKeys = s.installationKeys
  | .orgValues, s, s' => s'.orgValues = s.orgValues

theorem SameAt.refl (p : Pass) (s : State) : p.SameAt s s := by
  cases p <;> rfl

theorem SameAt.symm {p : Pass} {s s' : State} (h : p.SameAt s s') : p.SameAt s' s := by
  cases p <;> exact Eq.symm h

theorem SameAt.trans {p : Pass} {s s' s'' : State} (h : p.SameAt s s') (h' : p.SameAt s' s'') :
    p.SameAt s s'' := by
  cases p <;> exact Eq.trans h' h

/-- Two states differ only in what a pass is about, and in the identifiers given out. -/
structure OnlyAt (p : Pass) (s s' : State) : Prop where
  others : ∀ q, q ≠ p → q.SameAt s s'
  namespaces : s'.rules.keys = s.rules.keys

theorem OnlyAt.refl (p : Pass) (s : State) : p.OnlyAt s s := ⟨fun q _ => .refl q s, rfl⟩

theorem OnlyAt.trans {p : Pass} {s s' s'' : State} (h : p.OnlyAt s s') (h' : p.OnlyAt s' s'') :
    p.OnlyAt s s'' :=
  ⟨fun q hq => (h.others q hq).trans (h'.others q hq), h'.namespaces.trans h.namespaces⟩

/-- Giving out identifiers is no difference. -/
theorem onlyAt_idCounter (p : Pass) (s : State) (n : UInt64) :
    p.OnlyAt s { s with idCounter := n } :=
  ⟨fun q _ => by cases q <;> rfl, rfl⟩

theorem onlyAt_section {p : Pass} {sec : Section p.Body} (h : p.section? = some sec)
    (m : NameMap (Remote p.Body)) (s : State) : p.OnlyAt s (sec.put m s) := by
  refine ⟨fun q hq => ?_, ?_⟩
  · cases p <;> cases h <;> cases q <;> first | rfl | exact absurd rfl hq
  · cases p <;> cases h <;> rfl

theorem onlyAt_resources (s : State) (m : NameMap NameSet) :
    OnlyAt .resources s { s with resources := m } := by
  refine ⟨fun q hq => ?_, rfl⟩
  cases q <;> first | rfl | exact absurd rfl hq

theorem onlyAt_installationKeys (s : State) (m : NameMap (Remote InstallationKey)) :
    OnlyAt .installationKeys s { s with installationKeys := m } := by
  refine ⟨fun q hq => ?_, rfl⟩
  cases q <;> first | rfl | exact absurd rfl hq

theorem onlyAt_orgValues (s : State) (m : NameMap String) :
    OnlyAt .orgValues s { s with orgValues := m } := by
  refine ⟨fun q hq => ?_, rfl⟩
  cases q <;> first | rfl | exact absurd rfl hq

/-- The rules of a namespace that exists are replaced. -/
theorem onlyAt_rules {s : State} {ns : String} {rules rules' : NameMap (Remote Rule)}
    (h : s.rules.get? ns = some rules) :
    OnlyAt (.rules ns) s { s with rules := s.rules.insert ns rules' } := by
  refine ⟨fun q hq => ?_, NameMap.keys_insert h⟩
  -- only passes over other namespaces look at the same map
  cases q with
  | rules other =>
      have hne : other ≠ ns := fun heq => hq (by rw [heq])
      show (s.rules.insert ns rules').get? other = s.rules.get? other
      rw [NameMap.get?_insert, if_neg hne]
  | _ => rfl

/-! ## §3. Whatever a call does, it does within its pass. -/

/-- From `t` to `t'` there were only calls of a pass. -/
structure Within (p : Pass) (t t' : Tenant) : Prop where
  state : p.OnlyAt t.state t'.state
  faults : ∀ site, site.element ≠ p.element → t'.faults.get? site = t.faults.get? site
  weaker : t.faults.Weaker t'.faults
  log : ∃ logged, t'.log = t.log ++ logged ∧ ∀ m ∈ logged, m.element = p.element

theorem Within.refl (p : Pass) (t : Tenant) : p.Within t t where
  state := .refl p t.state
  faults := fun _ _ => rfl
  weaker := .refl t.faults
  log := by
    refine ⟨[], by rw [List.append_nil], fun m hm => ?_⟩
    cases hm

theorem Within.trans {p : Pass} {t t' t'' : Tenant} (h : p.Within t t') (h' : p.Within t' t'') :
    p.Within t t'' where
  state := h.state.trans h'.state
  faults := fun site hsite => (h'.faults site hsite).trans (h.faults site hsite)
  weaker := h.weaker.trans h'.weaker
  log := by
    obtain ⟨logged, hlog, hmine⟩ := h.log
    obtain ⟨logged', hlog', hmine'⟩ := h'.log
    refine ⟨logged ++ logged', by rw [hlog', hlog, List.append_assoc], fun m hm => ?_⟩
    rcases List.mem_append.1 hm with hm | hm
    · exact hmine m hm
    · exact hmine' m hm

/-- Counting a call is within every pass over elements of its kind. -/
theorem within_counted (p : Pass) (t : Tenant) (kind : CallKind) :
    p.Within t (t.counted ⟨kind, p.element⟩) where
  state := .refl p t.state
  faults := fun site hsite => Faults.get?_check_of_ne t.faults fun heq => hsite (by rw [heq])
  weaker := Faults.check_weaker t.faults _
  log := (Within.refl p t).log

section Calls

variable {α : Type} {p : Pass} {x : Tenant.Call α} {kind : CallKind}

theorem keeps_reading {shown : Tenant → α}
    (hx : ∀ t, exec x t = t.reading ⟨kind, p.element⟩ (shown t)) : Keeps p.Within x := by
  intro t
  rw [hx, reading_snd]
  exact within_counted p t kind

/-- A change is within a pass if what it makes of the state is. -/
theorem keeps_changing {change : Tenant → Except TenantError (α × State × Mutation)}
    (hx : ∀ t, exec x t = t.changing ⟨kind, p.element⟩ (change t))
    (hchange : ∀ {t a s m}, change t = .ok (a, s, m) → p.OnlyAt t.state s ∧ m.element = p.element) :
    Keeps p.Within x := by
  refine keeps_of_changing hx (fun t => within_counted p t kind) fun {t _ _ m} hok => ?_
  have hcounted := within_counted p t kind
  obtain ⟨honly, hm⟩ := hchange hok
  refine ⟨honly, hcounted.faults, hcounted.weaker, [m], rfl, fun m' hm' => ?_⟩
  rw [List.mem_singleton.1 hm', hm]

theorem keeps_throw (p : Pass) (e : TenantError) : Keeps p.Within (throw e : Tenant.Call α) :=
  Keeps.throw (Within.refl p) e

theorem keeps_pure (p : Pass) (a : α) : Keeps p.Within (pure a : Tenant.Call α) :=
  Keeps.pure (Within.refl p) a

theorem keeps_bind {β : Type} {f : α → Tenant.Call β} (hx : Keeps p.Within x)
    (hf : ∀ a, Keeps p.Within (f a)) : Keeps p.Within (x >>= f) :=
  Keeps.bind (fun h h' => h.trans h') hx hf

end Calls

/-! ## §4. The calls of each store. -/

/-- A store that replaces by deleting and creating keeps within its pass if it
lists, creates and deletes so. -/
theorem storeKeeps_ofDefault {β : Type} {p : Pass} {store : Store Tenant β}
    (hreplace : ∀ id body held,
      store.replace id body held = (do store.delete id held; store.create id body))
    (hfetch : Keeps p.Within store.fetch)
    (hcreate : ∀ id body, Keeps p.Within (store.create id body))
    (hdelete : ∀ id held, Keeps p.Within (store.delete id held)) : StoreKeeps p.Within store :=
  .ofDefault (fun h h' => h.trans h') hreplace hfetch hcreate hdelete

section Plain

variable {p : Pass} {s : Section p.Body} (h : p.section? = some s)
include h

theorem within_list : Keeps p.Within s.list :=
  keeps_reading fun t => section_element h ▸ exec_list s t

theorem within_add (name : String) (body : p.Body) : Keeps p.Within (s.add name body) := by
  refine keeps_changing (fun t => section_element h ▸ exec_add s name body t) ?_
  intro t a st m hok
  cases hok
  exact ⟨(onlyAt_idCounter p _ _).trans (onlyAt_section h _ _), rfl⟩

theorem within_delete (name : String) : Keeps p.Within (s.delete name) := by
  have helement := section_element h
  refine keeps_changing (fun t => helement ▸ exec_delete s name t) ?_
  intro t a st m hok
  unfold Section.deleted at hok
  split at hok <;> cases hok
  exact ⟨onlyAt_section h _ _, helement⟩

theorem plain_within : StoreKeeps p.Within (Store.plain s) :=
  storeKeeps_ofDefault (fun _ _ _ => rfl) (within_list h) (within_add h)
    fun name _ => within_delete h name

end Plain

theorem keeps_liftExcept {α : Type} (p : Pass) (r : Except TenantError α) :
    Keeps p.Within (Store.resources.liftExcept r) := by
  cases r with
  | ok a => exact keeps_pure p a
  | error e => exact keeps_throw p e

theorem within_subscribe (category name : String) :
    Keeps (Within .resources) (subscribe category name) := by
  refine keeps_changing (fun t => exec_subscribe category name t) ?_
  intro t a s m hok
  cases hok
  exact ⟨onlyAt_resources _ _, rfl⟩

theorem within_unsubscribe (category name : String) :
    Keeps (Within .resources) (unsubscribe category name) := by
  refine keeps_changing (fun t => exec_unsubscribe category name t) ?_
  intro t a s m hok
  unfold withoutSubscription at hok
  split at hok
  · cases hok
  · split at hok <;> cases hok
    exact ⟨onlyAt_resources _ _, rfl⟩

theorem resources_within : StoreKeeps (Within .resources) Store.resources := by
  have hcreate : ∀ id body, Keeps (Within .resources) (Store.resources.create id body) :=
    fun id _ => keeps_bind (keeps_liftExcept _ _) fun (category, name) =>
      within_subscribe category name
  have hdelete : ∀ id held, Keeps (Within .resources) (Store.resources.delete id held) :=
    fun id _ => keeps_bind (keeps_liftExcept _ _) fun (category, name) =>
      within_unsubscribe category name
  exact storeKeeps_ofDefault (fun _ _ _ => rfl)
    (keeps_bind (keeps_reading exec_resources) fun _ => keeps_pure _ _) hcreate hdelete

/-! Calls that take a name apart first come to a call on its parts, or are refused. -/

theorem rules_create {ns id name : String} (h : Store.ruleOf ns id = .ok name) (rule : Rule) :
    (Store.rules ns).create id rule = addRule ns name rule := by
  simp only [Store.rules, h]

theorem rules_create_refused {ns id : String} {e : TenantError} (h : Store.ruleOf ns id = .error e)
    (rule : Rule) : (Store.rules ns).create id rule = throw e := by
  simp only [Store.rules, h]

theorem rules_delete {ns id name : String} (h : Store.ruleOf ns id = .ok name)
    (held : Remote Rule) : (Store.rules ns).delete id held = deleteRule ns name := by
  simp only [Store.rules, h]

theorem rules_delete_refused {ns id : String} {e : TenantError} (h : Store.ruleOf ns id = .error e)
    (held : Remote Rule) : (Store.rules ns).delete id held = throw e := by
  simp only [Store.rules, h]

theorem within_addRule (ns name : String) (rule : Rule) :
    Keeps (Within (.rules ns)) (addRule ns name rule) := by
  refine keeps_changing (fun t => exec_addRule ns name rule t) ?_
  intro t a s m hok
  unfold withRule at hok
  cases hns : t.state.rules.get? ns with
  | none =>
      rw [hns] at hok
      cases hok
  | some held =>
      -- the namespace is there already, so it is not added to those of the tenant
      rw [hns] at hok
      cases hok
      exact ⟨(onlyAt_idCounter _ _ _).trans (onlyAt_rules hns), rfl⟩

theorem within_deleteRule (ns name : String) :
    Keeps (Within (.rules ns)) (deleteRule ns name) := by
  refine keeps_changing (fun t => exec_deleteRule ns name t) ?_
  intro t a s m hok
  unfold withoutRule at hok
  cases hns : t.state.rules.get? ns with
  | none =>
      -- an unknown namespace has no rule that could be deleted
      rw [hns] at hok
      cases hok
  | some held =>
      rw [hns] at hok
      simp only [Option.getD_some] at hok
      split at hok <;> cases hok
      exact ⟨onlyAt_rules hns, rfl⟩

theorem rules_within (ns : String) : StoreKeeps (Within (.rules ns)) (Store.rules ns) := by
  have hcreate : ∀ id rule, Keeps (Within (.rules ns)) ((Store.rules ns).create id rule) := by
    intro id rule
    cases hid : Store.ruleOf ns id with
    | ok name => exact rules_create hid rule ▸ within_addRule ns name rule
    | error e => exact rules_create_refused hid rule ▸ keeps_throw _ e
  have hdelete : ∀ id held, Keeps (Within (.rules ns)) ((Store.rules ns).delete id held) := by
    intro id held
    cases hid : Store.ruleOf ns id with
    | ok name => exact rules_delete hid held ▸ within_deleteRule ns name
    | error e => exact rules_delete_refused hid held ▸ keeps_throw _ e
  exact storeKeeps_ofDefault (fun _ _ _ => rfl)
    (keeps_bind (keeps_reading (exec_rules ns)) fun _ => keeps_pure _ _) hcreate hdelete

theorem within_createInstallationKey (key : InstallationKey) :
    Keeps (Within .installationKeys) (createInstallationKey key) := by
  refine keeps_changing (exec_createInstallationKey key) ?_
  intro t a s m hok
  cases hok
  exact ⟨(onlyAt_idCounter _ _ _).trans (onlyAt_installationKeys _ _), rfl⟩

theorem within_deleteInstallationKey (id : String) :
    Keeps (Within .installationKeys) (deleteInstallationKey id) := by
  refine keeps_changing (exec_deleteInstallationKey id) ?_
  intro t a s m hok
  unfold withoutKey at hok
  split at hok <;> cases hok
  exact ⟨onlyAt_installationKeys _ _, rfl⟩

theorem installationKeys_within :
    StoreKeeps (Within .installationKeys) Store.installationKeys := by
  have hdelete : ∀ id held,
      Keeps (Within .installationKeys) (Store.installationKeys.delete id held) := by
    intro id held
    simp only [Store.installationKeys]
    -- a key is deleted by its own id, and refused if it was listed without one
    cases held.info.id with
    | some keyId => exact within_deleteInstallationKey keyId
    | none => exact keeps_throw _ _
  exact storeKeeps_ofDefault (fun _ _ _ => rfl)
    (keeps_bind (keeps_reading exec_installationKeys) fun _ => keeps_pure _ _)
    (fun id key => keeps_bind (within_createInstallationKey { key with desc := id })
      fun _ => keeps_pure _ _) hdelete

theorem within_setOrgValue (name value : String) :
    Keeps (Within .orgValues) (setOrgValue name value) := by
  -- how the call counts depends on the value that is set, not on the tenant
  have hcall : ∀ t, exec (setOrgValue name value) t
      = t.changing ⟨(settingSite value).kind, element .orgValues⟩ _ :=
    exec_setOrgValue name value
  refine keeps_changing hcall ?_
  intro t a s m hok
  cases hok
  exact ⟨onlyAt_orgValues _ _, rfl⟩

theorem orgValues_within (table : List String) :
    StoreKeeps (Within .orgValues) (Store.orgValues table) := by
  have hread : ∀ keys acc, Keeps (Within .orgValues) (Store.readOrgValues keys acc) := by
    intro keys
    induction keys with
    | nil => exact fun acc => keeps_pure _ acc
    | cons key rest ih =>
        intro acc
        refine keeps_bind (Keeps.tryCatch (fun h h' => h.trans h')
          (keeps_reading (exec_orgValue key)) ?_) fun value => ih _
        intro e
        cases e with
        | notFound what => exact keeps_pure _ ""
        | rejected why => exact keeps_throw _ _
        | unavailable why => exact keeps_throw _ _
  exact ⟨hread table .empty, within_setOrgValue, fun name _ => within_setOrgValue name "",
    fun name value _ => within_setOrgValue name value⟩

/-- **No pass touches what another one is about**: every call of a store stays
within the pass over that store. -/
theorem store_within (table : List String) (p : Pass) : StoreKeeps p.Within (p.store table) := by
  cases hp : p.section? with
  | some s =>
      rw [store_plain table hp]
      exact plain_within hp
  | none =>
      cases p with
      | resources => exact resources_within
      | rules ns => exact rules_within ns
      | installationKeys => exact installationKeys_within
      | orgValues => exact orgValues_within table
      | _ => cases hp

/-- A whole pass stays within itself. -/
theorem run_within (table : List String) (mode : Mode) (c : Config) (p : Pass) :
    Keeps p.Within (p.run table mode c) := by
  rw [run_eq]
  exact reconcile_keeps (Within.refl p) (fun h h' => h.trans h') (store_within table p) mode _

end Pass

end TenantSync.Push
