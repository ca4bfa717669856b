/-
  TenantSync.Proofs.Tenant.Calls
  ──────────────────────────────
  **EVERY CALL IS A READING OR A CHANGE.**

  A call to a tenant counts against the faults and is answered by them, or goes
  through; a call that goes through either shows something of the state
  (`reading`) or turns the state into another one and logs one mutation
  (`changing`), unless the state itself forbids it:

      resources, namespaces, rules, sections, keys, settings     reading
      add, delete, subscribe, unsubscribe, set, …                changing

  Each call is equal to one of the two with a pure description of what it shows
  or changes.  What is true of all calls — a failed call leaves state and log as
  they were, a call counts against its own fault only — is proved of the two.
-/
import TenantSync.Proofs.Exec
import TenantSync.Proofs.Tenant.Faults
import TenantSync.Tenant.Basic

namespace TenantSync.Tenant

open Config

/-! ## §1. The two kinds of calls. -/

/-- The tenant with one more call counted. -/
def counted (t : Tenant) (site : CallSite) : Tenant :=
  { t with faults := (t.faults.check site).2 }

/-- A call that shows something of the state. -/
def reading {α : Type} (t : Tenant) (site : CallSite) (shown : α) :
    Except TenantError α × Tenant :=
  match t.faults.answer site with
  | some e => (.error e, t.counted site)
  | none => (.ok shown, t.counted site)

/-- A call that changes the state: to which one, with which answer and mutation,
or why the state forbids it. -/
def changing {α : Type} (t : Tenant) (site : CallSite)
    (change : Except TenantError (α × State × Mutation)) : Except TenantError α × Tenant :=
  match t.faults.answer site, change with
  | some e, _ => (.error e, t.counted site)
  | none, .error e => (.error e, t.counted site)
  | none, .ok (a, s, m) => (.ok a, { t.counted site with state := s, log := t.log ++ [m] })

section Kinds

variable {α : Type} {t t' : Tenant} {site : CallSite} {r : Except TenantError α}

@[simp] theorem counted_state (t : Tenant) (site : CallSite) :
    (t.counted site).state = t.state := rfl

@[simp] theorem counted_log (t : Tenant) (site : CallSite) : (t.counted site).log = t.log := rfl

@[simp] theorem counted_now (t : Tenant) (site : CallSite) : (t.counted site).now = t.now := rfl

@[simp] theorem counted_faults (t : Tenant) (site : CallSite) :
    (t.counted site).faults = (t.faults.check site).2 := rfl

theorem reading_snd (t : Tenant) (site : CallSite) (shown : α) :
    (t.reading site shown).2 = t.counted site := by
  unfold reading
  cases t.faults.answer site <;> rfl

/-- A reading that succeeds shows what there is to show. -/
theorem reading_ok {shown a : α} (h : t.reading site shown = (.ok a, t')) :
    a = shown ∧ t' = t.counted site := by
  unfold reading at h
  cases hs : t.faults.answer site with
  | some e =>
      rw [hs] at h
      cases h
  | none =>
      rw [hs] at h
      cases h
      exact ⟨rfl, rfl⟩

/-- A change either fails and changes nothing but the count of calls, or is made. -/
theorem changing_cases {change : Except TenantError (α × State × Mutation)}
    (h : t.changing site change = (r, t')) :
    (∃ e, r = .error e ∧ t' = t.counted site)
      ∨ ∃ a s m, change = .ok (a, s, m) ∧ r = .ok a
          ∧ t' = { t.counted site with state := s, log := t.log ++ [m] } := by
  unfold changing at h
  cases hs : t.faults.answer site with
  | some e =>
      rw [hs] at h
      cases h
      exact .inl ⟨e, rfl, rfl⟩
  | none =>
      rw [hs] at h
      rcases change with e | ⟨a, s, m⟩
      · cases h
        exact .inl ⟨e, rfl, rfl⟩
      · cases h
        exact .inr ⟨a, s, m, rfl, rfl, rfl⟩

/-- What is so of a call that failed and of a change that was made is so of a call. -/
theorem keeps_of_changing {R : Tenant → Tenant → Prop} {x : Call α}
    {change : Tenant → Except TenantError (α × State × Mutation)}
    (hx : ∀ t, exec x t = t.changing site (change t)) (hfailed : ∀ t, R t (t.counted site))
    (hmade : ∀ {t a s m}, change t = .ok (a, s, m) →
      R t { t.counted site with state := s, log := t.log ++ [m] }) : Keeps R x := by
  intro t
  rcases hr : t.changing site (change t) with ⟨r, t'⟩
  rw [hx, hr]
  rcases changing_cases hr with ⟨e, -, rfl⟩ | ⟨a, s, m, hok, -, rfl⟩
  · exact hfailed t
  · exact hmade hok

end Kinds

theorem exec_check (kind : CallKind) (element : ElementType) (t : Tenant) :
    exec (check kind element) t = t.reading ⟨kind, element⟩ () := by
  unfold check reading Faults.answer
  simp only [exec_bind, exec_get, exec_set]
  cases (t.faults.check ⟨kind, element⟩).1 <;> rfl

/-- What a call does after it was counted. -/
theorem exec_checked {α : Type} (kind : CallKind) (element : ElementType) (x : Call α)
    (t : Tenant) :
    exec (do check kind element; x) t = match t.faults.answer ⟨kind, element⟩ with
      | some e => (.error e, t.counted ⟨kind, element⟩)
      | none => exec x (t.counted ⟨kind, element⟩) := by
  rw [exec_bind, exec_check]
  unfold reading
  cases t.faults.answer ⟨kind, element⟩ <;> rfl

/-! ## §2. Identifiers given out. -/

/-- Stamping a body makes one more identifier and leaves all elements alone. -/
theorem stamp_snd {α : Type} (now : Timestamp) (kind : String) (body : α) (s : State) :
    (s.stamp now kind body).2 = { s with idCounter := s.idCounter + 1 } := rfl

/-! ## §3. The calls of plain sections. -/

section Plain

variable {α : Type} (s : Section α)

theorem exec_list (t : Tenant) :
    exec s.list t = t.reading ⟨.list, s.element⟩ (s.get t.state) := by
  unfold Section.list reading
  rw [exec_checked]
  cases t.faults.answer ⟨.list, s.element⟩ <;> rfl

/-- The state with a section in which a stamped body stands under a name. -/
def Section.added (now : Timestamp) (name : String) (body : α) (st : State) : State :=
  let (remote, st) := st.stamp now s.element.name body
  s.put ((s.get st).insert name remote) st

theorem exec_add (name : String) (body : α) (t : Tenant) :
    exec (s.add name body) t = t.changing ⟨.create, s.element⟩
      (.ok ((), s.added t.now name body t.state, ⟨.created, s.element, name⟩)) := by
  unfold Section.add changing
  rw [exec_checked]
  cases t.faults.answer ⟨.create, s.element⟩ <;> rfl

/-- The state with a section that has lost a name, if it held it. -/
def Section.deleted (name : String) (st : State) : Except TenantError (Unit × State × Mutation) :=
  if (s.get st).contains name then
    .ok ((), s.put ((s.get st).erase name) st, ⟨.deleted, s.element, name⟩)
  else .error (.notFound s!"{s.element.name} '{name}'")

theorem exec_delete (name : String) (t : Tenant) :
    exec (s.delete name) t
      = t.changing ⟨.delete, s.element⟩ (s.deleted name t.state) := by
  unfold Section.delete changing Section.deleted
  rw [exec_checked]
  cases t.faults.answer ⟨.delete, s.element⟩ with
  | some e => rfl
  | none =>
      cases h : (s.get t.state).contains name <;>
        simp [exec_bind, exec_throw, currentState, putState, record, exec_get, exec_modify, h]

end Plain

/-! ## §4. The calls on resources. -/

theorem exec_resources (t : Tenant) :
    exec resources t = t.reading ⟨.list, .resource⟩ t.state.resources := by
  unfold resources reading
  rw [exec_checked]
  cases t.faults.answer ⟨.list, .resource⟩ <;> rfl

/-- The state with one more subscription. -/
def withSubscription (category name : String) (s : State) : State :=
  { s with resources :=
      s.resources.insert category ((subscribed s category).insert name ()) }

theorem exec_subscribe (category name : String) (t : Tenant) :
    exec (subscribe category name) t = t.changing ⟨.create, .resource⟩
      (.ok ((), withSubscription category name t.state,
        ⟨.created, .resource, s!"{category}/{name}"⟩)) := by
  unfold subscribe changing
  rw [exec_checked]
  cases t.faults.answer ⟨.create, .resource⟩ <;> rfl

/-- The state with one subscription less, if it was there. -/
def withoutSubscription (category name : String) (s : State) :
    Except TenantError (Unit × State × Mutation) :=
  match s.resources.get? category with
  | none => .error (.notFound s!"resource category '{category}'")
  | some names =>
      if names.contains name then
        let rest := names.erase name
        .ok ((),
          { s with resources := if rest.isEmpty then s.resources.erase category
                                else s.resources.insert category rest },
          ⟨.deleted, .resource, s!"{category}/{name}"⟩)
      else .error (.notFound s!"resource '{category}/{name}'")

theorem exec_unsubscribe (category name : String) (t : Tenant) :
    exec (unsubscribe category name) t
      = t.changing ⟨.delete, .resource⟩ (withoutSubscription category name t.state) := by
  unfold unsubscribe changing withoutSubscription
  rw [exec_checked]
  cases t.faults.answer ⟨.delete, .resource⟩ with
  | some e => rfl
  | none =>
      cases h : t.state.resources.get? category with
      | none => simp [exec_bind, exec_throw, currentState, exec_get, h]
      | some names =>
          cases hn : names.contains name <;>
            simp [exec_bind, exec_throw, currentState, putState, record, exec_get,
              exec_modify, h, hn]

/-! ## §5. The calls on rules. -/

theorem exec_ruleNamespaces (t : Tenant) :
    exec ruleNamespaces t = t.reading ⟨.list, .rule⟩ t.state.rules.keys := by
  unfold ruleNamespaces reading
  rw [exec_checked]
  cases t.faults.answer ⟨.list, .rule⟩ <;> rfl

theorem exec_rules (ns : String) (t : Tenant) :
    exec (rules ns) t = t.reading ⟨.list, .rule⟩ ((t.state.rules.get? ns).getD .empty) := by
  unfold rules reading
  rw [exec_checked]
  cases t.faults.answer ⟨.list, .rule⟩ <;> rfl

/-- The state with a rule in a namespace, if it has the namespace. -/
def withRule (now : Timestamp) (ns name : String) (rule : Config.Rule) (s : State) :
    Except TenantError (Unit × State × Mutation) :=
  match s.rules.get? ns with
  | none => .error (.rejected s!"unknown namespace '{ns}'")
  | some held =>
      let (remote, s) := s.stamp now ElementType.rule.name { rule with name, ruleNamespace := ns }
      .ok ((), { s with rules := s.rules.insert ns (held.insert name remote) },
        ⟨.created, .rule, s!"{ns}/{name}"⟩)

theorem exec_addRule (ns name : String) (rule : Config.Rule) (t : Tenant) :
    exec (addRule ns name rule) t
      = t.changing ⟨.create, .rule⟩ (withRule t.now ns name rule t.state) := by
  unfold addRule changing withRule
  rw [exec_checked]
  cases t.faults.answer ⟨.create, .rule⟩ with
  | some e => rfl
  | none =>
      cases h : t.state.rules.get? ns with
      | none => simp [exec_bind, exec_throw, currentState, exec_get, h]
      | some held =>
          simp [exec_bind, currentState, putState, record, stamp, exec_get, exec_set,
            exec_modify, h]

/-- The state with a rule less in a namespace, if it was there. -/
def withoutRule (ns name : String) (s : State) : Except TenantError (Unit × State × Mutation) :=
  let held := (s.rules.get? ns).getD .empty
  if held.contains name then
    .ok ((), { s with rules := s.rules.insert ns (held.erase name) },
      ⟨.deleted, .rule, s!"{ns}/{name}"⟩)
  else .error (.notFound s!"rule '{name}' in namespace '{ns}'")

theorem exec_deleteRule (ns name : String) (t : Tenant) :
    exec (deleteRule ns name) t
      = t.changing ⟨.delete, .rule⟩ (withoutRule ns name t.state) := by
  unfold deleteRule changing withoutRule
  rw [exec_checked]
  cases t.faults.answer ⟨.delete, .rule⟩ with
  | some e => rfl
  | none =>
      cases h : ((t.state.rules.get? ns).getD .empty).contains name <;>
        simp [exec_bind, exec_throw, currentState, putState, record, exec_get, exec_modify, h]

/-! ## §6. The calls on installation keys. -/

theorem exec_installationKeys (t : Tenant) :
    exec installationKeys t
      = t.reading ⟨.list, .installationKey⟩ t.state.installationKeys.values := by
  unfold installationKeys reading
  rw [exec_checked]
  cases t.faults.answer ⟨.list, .installationKey⟩ <;> rfl

/-- The state with one more installation key, and the identifier of that. -/
def withKey (now : Timestamp) (key : InstallationKey) (s : State) : String × State :=
  let (remote, s) := s.stamp now "key" key
  let id := remote.info.id.getD ""
  (id, { s with installationKeys := s.installationKeys.insert id remote })

theorem exec_createInstallationKey (key : InstallationKey) (t : Tenant) :
    exec (createInstallationKey key) t = t.changing ⟨.create, .installationKey⟩
      (.ok ((withKey t.now key t.state).1, (withKey t.now key t.state).2,
        ⟨.created, .installationKey, key.desc⟩)) := by
  unfold createInstallationKey changing
  rw [exec_checked]
  cases t.faults.answer ⟨.create, .installationKey⟩ <;> rfl

/-- The state without the installation key of an identifier, if it was there. -/
def withoutKey (id : String) (s : State) : Except TenantError (Unit × State × Mutation) :=
  match s.installationKeys.get? id with
  | none => .error (.notFound s!"installation key '{id}'")
  | some key =>
      .ok ((), { s with installationKeys := s.installationKeys.erase id },
        ⟨.deleted, .installationKey, key.body.desc⟩)

theorem exec_deleteInstallationKey (id : String) (t : Tenant) :
    exec (deleteInstallationKey id) t
      = t.changing ⟨.delete, .installationKey⟩ (withoutKey id t.state) := by
  unfold deleteInstallationKey changing withoutKey
  rw [exec_checked]
  cases t.faults.answer ⟨.delete, .installationKey⟩ with
  | some e => rfl
  | none =>
      cases h : t.state.installationKeys.get? id <;>
        simp [exec_bind, exec_throw, currentState, putState, record, exec_get, exec_modify, h]

/-! ## §7. The calls on settings. -/

/-- The value of a setting in a state; empty when it is not set. -/
def setting (s : State) (name : String) : String := (s.orgValues.get? name).getD ""

theorem exec_orgValue (name : String) (t : Tenant) :
    exec (orgValue name) t = t.reading ⟨.list, .orgValue⟩ (setting t.state name) := by
  unfold orgValue reading
  rw [exec_checked]
  cases t.faults.answer ⟨.list, .orgValue⟩ <;> rfl

/-- How setting a setting counts: unsetting it is a deletion. -/
def settingSite (value : String) : CallSite :=
  ⟨if value.isEmpty then .delete else .create, .orgValue⟩

theorem exec_setOrgValue (name value : String) (t : Tenant) :
    exec (setOrgValue name value) t = t.changing (settingSite value)
      (.ok ((), { t.state with orgValues := t.state.orgValues.insert name value },
        ⟨if value.isEmpty then .deleted else .created, .orgValue, name⟩)) := by
  unfold setOrgValue changing settingSite
  cases hv : value.isEmpty
  · simp only [Bool.false_eq_true, if_false]
    rw [exec_checked]
    cases t.faults.answer ⟨.create, .orgValue⟩ <;> rfl
  · simp only [if_true]
    rw [exec_checked]
    cases t.faults.answer ⟨.delete, .orgValue⟩ <;> rfl

end TenantSync.Tenant
