/-
  TenantSync.Proofs.Push.EveryCall
  ────────────────────────────────
  **WHAT EVERY CALL KEEPS, A PUSH KEEPS.**

  A push is made of calls to the tenant and of nothing else.  `IsCall` lists the
  calls that a tenant answers, and `Change` what they may do to a state.  A call
  either leaves state and log alone or makes one change and logs it, and only a
  call that succeeds has made one (`IsCall.does`).

  A preorder that each call keeps is kept by every store, every pass, every stage
  and every push, under any options.  So a fact about all that a tenant may go
  through is proved change by change.
-/
import TenantSync.Proofs.Push.Scope

namespace TenantSync.Push

open Config Tenant

/-! ## §1. Calls, and what they do. -/

/-- The calls that a tenant answers. -/
inductive IsCall : {α : Type} → Tenant.Call α → Prop
  | list {p : Pass} {s : Section p.Body} (h : p.section? = some s) : IsCall s.list
  | add {p : Pass} {s : Section p.Body} (h : p.section? = some s) (name : String)
      (body : p.Body) : IsCall (s.add name body)
  | delete {p : Pass} {s : Section p.Body} (h : p.section? = some s) (name : String) :
      IsCall (s.delete name)
  | resources : IsCall Tenant.resources
  | subscribe (category name : String) : IsCall (Tenant.subscribe category name)
  | unsubscribe (category name : String) : IsCall (Tenant.unsubscribe category name)
  | ruleNamespaces : IsCall Tenant.ruleNamespaces
  | rules (ns : String) : IsCall (Tenant.rules ns)
  | addRule (ns name : String) (rule : Rule) : IsCall (Tenant.addRule ns name rule)
  | deleteRule (ns name : String) : IsCall (Tenant.deleteRule ns name)
  | installationKeys : IsCall Tenant.installationKeys
  | createInstallationKey (key : InstallationKey) : IsCall (Tenant.createInstallationKey key)
  | deleteInstallationKey (id : String) : IsCall (Tenant.deleteInstallationKey id)
  | orgValue (name : String) : IsCall (Tenant.orgValue name)
  | setOrgValue (name value : String) : IsCall (Tenant.setOrgValue name value)

/-- What a call may make of a state at a time, and the mutation that is logged. -/
inductive Change (now : Timestamp) (s : State) : State → Mutation → Prop
  | added {p : Pass} {sec : Section p.Body} (h : p.section? = some sec) (name : String)
      (body : p.Body) : Change now s (sec.added now name body s) ⟨.created, sec.element, name⟩
  /-- Only what is there can be deleted. -/
  | deleted {p : Pass} {sec : Section p.Body} (h : p.section? = some sec) {name : String}
      (hheld : (sec.get s).contains name = true) :
      Change now s (sec.put ((sec.get s).erase name) s) ⟨.deleted, sec.element, name⟩
  | subscribed (category name : String) :
      Change now s (withSubscription category name s) ⟨.created, .resource, s!"{category}/{name}"⟩
  /-- A category disappears with its last name. -/
  | unsubscribed {category name : String} {names : NameSet}
      (h : s.resources.get? category = some names) (hheld : names.contains name = true) :
      Change now s
        { s with resources := if (names.erase name).isEmpty then s.resources.erase category
                              else s.resources.insert category (names.erase name) }
        ⟨.deleted, .resource, s!"{category}/{name}"⟩
  /-- A rule is stored with the name and the namespace it is stored under. -/
  | ruleAdded {ns name : String} (rule : Rule) {rules : NameMap (Remote Rule)}
      (h : s.rules.get? ns = some rules) :
      Change now s
        { (s.nextId ElementType.rule.name).2 with
          rules := s.rules.insert ns (rules.insert name
            (s.stamp now ElementType.rule.name { rule with name, ruleNamespace := ns }).1) }
        ⟨.created, .rule, s!"{ns}/{name}"⟩
  | ruleDeleted {ns name : String} {rules : NameMap (Remote Rule)}
      (h : s.rules.get? ns = some rules) (hheld : rules.contains name = true) :
      Change now s { s with rules := s.rules.insert ns (rules.erase name) }
        ⟨.deleted, .rule, s!"{ns}/{name}"⟩
  | keyMade (key : InstallationKey) :
      Change now s (withKey now key s).2 ⟨.created, .installationKey, key.desc⟩
  | keyDropped {id : String} {key : Remote InstallationKey}
      (h : s.installationKeys.get? id = some key) :
      Change now s { s with installationKeys := s.installationKeys.erase id }
        ⟨.deleted, .installationKey, key.body.desc⟩
  /-- Unsetting a setting is setting it to the empty value. -/
  | settingSet (name value : String) :
      Change now s { s with orgValues := s.orgValues.insert name value }
        ⟨if value.isEmpty then .deleted else .created, .orgValue, name⟩

/-- What a run of a call did: it only counted as a call, or it succeeded and made a change. -/
def Does {α : Type} (t : Tenant) (run : Except TenantError α × Tenant) : Prop :=
  (∃ site, run.2 = t.counted site)
    ∨ ∃ site a s m, run = (.ok a, { t.counted site with state := s, log := t.log ++ [m] })
        ∧ Change t.now t.state s m

theorem does_reading {α : Type} (t : Tenant) (site : CallSite) (shown : α) :
    Does t (t.reading site shown) :=
  .inl ⟨site, reading_snd t site shown⟩

theorem does_changing {α : Type} {t : Tenant} {site : CallSite}
    {change : Except TenantError (α × State × Mutation)}
    (h : ∀ {a s m}, change = .ok (a, s, m) → Change t.now t.state s m) :
    Does t (t.changing site change) := by
  rcases hrun : t.changing site change with ⟨r, t'⟩
  rcases changing_cases hrun with ⟨e, -, rfl⟩ | ⟨a, s, m, hok, rfl, rfl⟩
  · exact .inl ⟨site, rfl⟩
  · exact .inr ⟨site, a, s, m, rfl, h hok⟩

/-- **What every call does**: nothing, or one change. -/
theorem IsCall.does {α : Type} {x : Tenant.Call α} (h : IsCall x) (t : Tenant) :
    Does t (exec x t) := by
  cases h with
  | list h => exact exec_list _ t ▸ does_reading t _ _
  | add h name body =>
      rw [exec_add]
      refine does_changing fun hok => ?_
      cases hok
      exact .added h name body
  | delete h name =>
      rw [exec_delete]
      refine does_changing fun hok => ?_
      unfold Section.deleted at hok
      split at hok <;> cases hok
      next hheld => exact .deleted h hheld
  | resources => exact exec_resources t ▸ does_reading t _ _
  | subscribe category name =>
      rw [exec_subscribe]
      refine does_changing fun hok => ?_
      cases hok
      exact .subscribed category name
  | unsubscribe category name =>
      rw [exec_unsubscribe]
      refine does_changing fun hok => ?_
      unfold withoutSubscription at hok
      split at hok
      · cases hok
      next names hnames =>
        split at hok <;> cases hok
        next hheld => exact .unsubscribed hnames hheld
  | ruleNamespaces => exact exec_ruleNamespaces t ▸ does_reading t _ _
  | rules ns => exact exec_rules ns t ▸ does_reading t _ _
  | addRule ns name rule =>
      rw [exec_addRule]
      refine does_changing fun hok => ?_
      unfold withRule at hok
      split at hok <;> cases hok
      next rules hrules => exact .ruleAdded rule hrules
  | deleteRule ns name =>
      rw [exec_deleteRule]
      refine does_changing fun hok => ?_
      unfold withoutRule at hok
      cases hrules : t.state.rules.get? ns with
      | none =>
          -- an unknown namespace has no rule that could be deleted
          rw [hrules] at hok
          cases hok
      | some rules =>
          simp only [hrules, Option.getD_some] at hok
          split at hok <;> cases hok
          next hheld => exact .ruleDeleted hrules hheld
  | installationKeys => exact exec_installationKeys t ▸ does_reading t _ _
  | createInstallationKey key =>
      rw [exec_createInstallationKey]
      refine does_changing fun hok => ?_
      cases hok
      exact .keyMade key
  | deleteInstallationKey id =>
      rw [exec_deleteInstallationKey]
      refine does_changing fun hok => ?_
      unfold withoutKey at hok
      split at hok <;> cases hok
      next key hkey => exact .keyDropped hkey
  | orgValue name => exact exec_orgValue name t ▸ does_reading t _ _
  | setOrgValue name value =>
      rw [exec_setOrgValue]
      refine does_changing fun hok => ?_
      cases hok
      exact .settingSet name value

/-- What is so of a call that only counted and of every change is so of every call. -/
theorem keeps_of_changes {R : Tenant → Tenant → Prop}
    (hcounted : ∀ t site, R t (t.counted site))
    (hmade : ∀ {t : Tenant} {site : CallSite} {s : State} {m : Mutation},
      Change t.now t.state s m → R t { t.counted site with state := s, log := t.log ++ [m] })
    {α : Type} {x : Tenant.Call α} (h : IsCall x) : Keeps R x := by
  intro t
  rcases h.does t with ⟨site, hrun⟩ | ⟨site, a, s, m, hrun, hchange⟩
  · exact hrun ▸ hcounted t site
  · rw [hrun]
    exact hmade hchange

/-! ## §2. What a push is made of. -/

section EveryCall

variable {R : Tenant → Tenant → Prop} (hrefl : ∀ t, R t t)
  (htrans : ∀ {t t' t''}, R t t' → R t' t'' → R t t'')
  (hcalls : ∀ {α : Type} {x : Tenant.Call α}, IsCall x → Keeps R x)

include hrefl htrans hcalls

theorem resources_keep_calls : StoreKeeps R Store.resources := by
  have hlift : ∀ {α : Type} (r : Except TenantError α), Keeps R (Store.resources.liftExcept r) := by
    intro α r
    cases r with
    | ok a => exact Keeps.pure hrefl a
    | error e => exact Keeps.throw hrefl e
  refine StoreKeeps.ofDefault htrans (fun _ _ _ => rfl) ?_ ?_ ?_
  · exact Keeps.bind (R := R) htrans (hcalls .resources) fun _ => Keeps.pure hrefl _
  · exact fun id _ => Keeps.bind (R := R) htrans (hlift _) fun (category, name) =>
      hcalls (.subscribe category name)
  · exact fun id _ => Keeps.bind (R := R) htrans (hlift _) fun (category, name) =>
      hcalls (.unsubscribe category name)

theorem rules_keep_calls (ns : String) : StoreKeeps R (Store.rules ns) := by
  refine StoreKeeps.ofDefault htrans (fun _ _ _ => rfl) ?_ ?_ ?_
  · exact Keeps.bind (R := R) htrans (hcalls (.rules ns)) fun _ => Keeps.pure hrefl _
  · intro id rule
    cases hid : Store.ruleOf ns id with
    | ok name => exact Pass.rules_create hid rule ▸ hcalls (.addRule ns name rule)
    | error e => exact Pass.rules_create_refused hid rule ▸ Keeps.throw hrefl e
  · intro id held
    cases hid : Store.ruleOf ns id with
    | ok name => exact Pass.rules_delete hid held ▸ hcalls (.deleteRule ns name)
    | error e => exact Pass.rules_delete_refused hid held ▸ Keeps.throw hrefl e

theorem installationKeys_keep_calls : StoreKeeps R Store.installationKeys := by
  refine StoreKeeps.ofDefault htrans (fun _ _ _ => rfl) ?_ ?_ ?_
  · exact Keeps.bind (R := R) htrans (hcalls .installationKeys) fun _ => Keeps.pure hrefl _
  · exact fun id key => Keeps.bind (R := R) htrans (hcalls (.createInstallationKey _)) fun _ =>
      Keeps.pure hrefl _
  · intro id held
    simp only [Store.installationKeys]
    cases held.info.id with
    | some keyId => exact hcalls (.deleteInstallationKey keyId)
    | none => exact Keeps.throw hrefl _

theorem orgValues_keep_calls (table : List String) : StoreKeeps R (Store.orgValues table) := by
  have hread : ∀ keys acc, Keeps R (Store.readOrgValues keys acc) := by
    intro keys
    induction keys with
    | nil => exact fun acc => Keeps.pure hrefl acc
    | cons key rest ih =>
        intro acc
        refine Keeps.bind (R := R) htrans (Keeps.tryCatch (R := R) htrans
          (hcalls (.orgValue key)) fun e => ?_) fun value => ih _
        cases e with
        | notFound what => exact Keeps.pure hrefl ""
        | rejected why => exact Keeps.throw hrefl _
        | unavailable why => exact Keeps.throw hrefl _
  exact ⟨hread table .empty, fun name value => hcalls (.setOrgValue name value),
    fun name _ => hcalls (.setOrgValue name ""),
    fun name value _ => hcalls (.setOrgValue name value)⟩

/-- Every store is made of calls to the tenant. -/
theorem store_keeps_calls (table : List String) (p : Pass) : StoreKeeps R (p.store table) := by
  cases hp : p.section? with
  | some s =>
      rw [Pass.store_plain table hp]
      exact StoreKeeps.ofDefault htrans (fun _ _ _ => rfl) (hcalls (.list hp))
        (fun name body => hcalls (.add hp name body)) fun name _ => hcalls (.delete hp name)
  | none =>
      cases p with
      | resources => exact resources_keep_calls hrefl htrans hcalls
      | rules ns => exact rules_keep_calls hrefl htrans hcalls ns
      | installationKeys => exact installationKeys_keep_calls hrefl htrans hcalls
      | orgValues => exact orgValues_keep_calls hrefl htrans hcalls table
      | _ => cases hp

/-- Every stage is made of calls to the tenant. -/
theorem stage_keeps_calls (table : List String) (mode : Mode) (c : Config) (stage : Stage) :
    Keeps R (stage.run table mode c) := by
  cases stage with
  | namespaces =>
      intro t
      have h := hcalls .ruleNamespaces t
      rw [exec_ruleNamespaces, reading_snd] at h
      rw [exec_run_namespaces, exec_namespaces]
      cases c.rules.isEmpty with
      | false => exact hrefl t
      | true =>
          simp only [if_true]
          cases t.faults.answer ⟨.list, .rule⟩ <;> exact h
  | pass p =>
      show Keeps R (p.run table mode c)
      rw [Pass.run_eq]
      exact reconcile_keeps hrefl htrans (store_keeps_calls hrefl htrans hcalls table p) mode _

/-- **Every push is made of calls to the tenant**: what each of them keeps, it keeps. -/
theorem push_keeps_calls (table : List String) (o : Options) (c : Config) :
    Keeps R (pushWith table o c) := fun _ =>
  push_keeps hrefl htrans fun _ stage _ =>
    stage_keeps_calls hrefl htrans hcalls table o.mode c stage

end EveryCall

end TenantSync.Push
