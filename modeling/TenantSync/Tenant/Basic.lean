/-
  TenantSync.Tenant.Basic
  ───────────────────────
  **A TENANT AND THE CALLS TO IT.**

  A tenant is a state, the faults attached to its calls and the log of the
  mutations that succeeded.  Every call first counts against the faults; a call
  that fails, for whichever reason, changes nothing else.

      list      the elements of a kind, by name
      add       an element under a name, replacing one that is there
      delete    an element that is there

  Eight kinds of elements are held in plain sections, all treated alike through
  `Section`; resources, rules, installation keys and settings have calls of
  their own.
-/
import TenantSync.Tenant.State
import TenantSync.Tenant.Faults

namespace TenantSync

open Config

/-! ## §1. The tenant. -/

/-- What a mutation did to an element. -/
inductive MutationKind where
  | created
  | deleted
  deriving DecidableEq, Repr

/-- A mutation that succeeded. -/
structure Mutation where
  kind : MutationKind
  element : ElementType
  name : String
  deriving DecidableEq, Repr

/-- The mutation in words. -/
def Mutation.text (m : Mutation) : String :=
  let verb := match m.kind with
    | .created => "create"
    | .deleted => "delete"
  s!"{verb} {m.element.name} {m.name}"

/-- A tenant. -/
structure Tenant where
  state : State := {}
  faults : Faults := {}
  /-- The mutations that succeeded, in order. -/
  log : List Mutation := []
  /-- The time that new elements are stamped with. -/
  now : Timestamp

namespace Tenant

/-- A call to a tenant: it may fail, and what it did to the tenant stays. -/
abbrev Call (α : Type) := ExceptT TenantError (StateM Tenant) α

/-- Count a call against the faults, and fail if one says so. -/
def check (kind : CallKind) (element : ElementType) : Call Unit := do
  let t ← get
  let (error, faults) := t.faults.check ⟨kind, element⟩
  set { t with faults }
  match error with
  | some e => throw e
  | none => return ()

/-- Put a mutation into the log. -/
def record (kind : MutationKind) (element : ElementType) (name : String) : Call Unit :=
  modify fun t => { t with log := t.log ++ [⟨kind, element, name⟩] }

/-- The state. -/
def currentState : Call State := return (← get).state

/-- Replace the state. -/
def putState (s : State) : Call Unit := modify fun t => { t with state := s }

/-- A body as the tenant stores it now. -/
def stamp {α : Type} (kind : String) (body : α) : Call (Remote α) := do
  let t ← get
  let (remote, state) := t.state.stamp t.now kind body
  set { t with state }
  return remote

/-! ## §2. Plain sections. -/

/-- A section of elements held by name and treated in no special way. -/
structure Section (α : Type) where
  element : ElementType
  get : State → NameMap (Remote α)
  put : NameMap (Remote α) → State → State
  /-- When two bodies have the same content. -/
  same : α → α → Bool

namespace Section

variable {α : Type}

/-- The elements of a section. -/
def list (s : Section α) : Call (NameMap (Remote α)) := do
  check .list s.element
  return s.get (← currentState)

/-- Store an element. -/
def add (s : Section α) (name : String) (body : α) : Call Unit := do
  check .create s.element
  let remote ← stamp s.element.name body
  let state ← currentState
  putState (s.put ((s.get state).insert name remote) state)
  record .created s.element name

/-- Delete an element. -/
def delete (s : Section α) (name : String) : Call Unit := do
  check .delete s.element
  let state ← currentState
  if !(s.get state).contains name then throw (.notFound s!"{s.element.name} '{name}'")
  putState (s.put ((s.get state).erase name) state)
  record .deleted s.element name

/-- Filters of false positives. -/
def falsePositives : Section FalsePositive :=
  ⟨.falsePositive, State.falsePositives, fun m s => { s with falsePositives := m },
    FalsePositive.sameContent⟩

/-- Output destinations. -/
def outputs : Section Output :=
  ⟨.output, State.outputs, fun m s => { s with outputs := m }, Output.sameContent⟩

/-- Integrity rules. -/
def integrity : Section IntegrityRule :=
  ⟨.integrity, State.integrity, fun m s => { s with integrity := m }, IntegrityRule.sameContent⟩

/-- Exfil watches. -/
def exfilWatches : Section ExfilWatch :=
  ⟨.exfilWatch, State.exfilWatches, fun m s => { s with exfilWatches := m },
    ExfilWatch.sameContent⟩

/-- Exfil event lists. -/
def exfilEvents : Section ExfilEvent :=
  ⟨.exfilEvent, State.exfilEvents, fun m s => { s with exfilEvents := m },
    ExfilEvent.sameContent⟩

/-- Artifact rules. -/
def artifacts : Section ArtifactRule :=
  ⟨.artifact, State.artifacts, fun m s => { s with artifacts := m }, ArtifactRule.sameContent⟩

/-- Sources of signatures. -/
def yaraSources : Section YaraSource :=
  ⟨.yaraSource, State.yaraSources, fun m s => { s with yaraSources := m },
    YaraSource.sameContent⟩

/-- Signature rules. -/
def yaraRules : Section YaraRule :=
  ⟨.yaraRule, State.yaraRules, fun m s => { s with yaraRules := m }, YaraRule.sameContent⟩

end Section

/-! ## §3. Resources. -/

/-- The subscriptions, by resource category. -/
def resources : Call (NameMap NameSet) := do
  check .list .resource
  return (← currentState).resources

/-- The names subscribed to in a category of a state. -/
def subscribed (s : State) (category : String) : NameSet :=
  (s.resources.get? category).getD .empty

/-- Subscribe to a resource. -/
def subscribe (category name : String) : Call Unit := do
  check .create .resource
  let s ← currentState
  let names := (subscribed s category).insert name ()
  putState { s with resources := s.resources.insert category names }
  record .created .resource s!"{category}/{name}"

/-- End a subscription; a category without subscriptions disappears. -/
def unsubscribe (category name : String) : Call Unit := do
  check .delete .resource
  let s ← currentState
  match s.resources.get? category with
  | none => throw (.notFound s!"resource category '{category}'")
  | some names =>
      if !names.contains name then throw (.notFound s!"resource '{category}/{name}'")
      let names := names.erase name
      let resources :=
        if names.isEmpty then s.resources.erase category else s.resources.insert category names
      putState { s with resources }
      record .deleted .resource s!"{category}/{name}"

/-! ## §4. Rules. -/

/-- The namespaces of rules. -/
def ruleNamespaces : Call (List String) := do
  check .list .rule
  return (← currentState).rules.keys

/-- The rules of a namespace; none when there is no such namespace. -/
def rules (ns : String) : Call (NameMap (Remote Rule)) := do
  check .list .rule
  return ((← currentState).rules.get? ns).getD .empty

/-- Store a rule, which gets the name and the namespace it is stored under. -/
def addRule (ns name : String) (rule : Rule) : Call Unit := do
  check .create .rule
  let s ← currentState
  match s.rules.get? ns with
  | none => throw (.rejected s!"unknown namespace '{ns}'")
  | some held =>
      let remote ← stamp ElementType.rule.name { rule with name, ruleNamespace := ns }
      let s ← currentState
      putState { s with rules := s.rules.insert ns (held.insert name remote) }
      record .created .rule s!"{ns}/{name}"

/-- Delete a rule. -/
def deleteRule (ns name : String) : Call Unit := do
  check .delete .rule
  let s ← currentState
  let held := (s.rules.get? ns).getD .empty
  if !held.contains name then
    throw (.notFound s!"rule '{name}' in namespace '{ns}'")
  putState { s with rules := s.rules.insert ns (held.erase name) }
  record .deleted .rule s!"{ns}/{name}"

/-! ## §5. Installation keys. -/

/-- The installation keys, in the order of their identifiers. -/
def installationKeys : Call (List (Remote InstallationKey)) := do
  check .list .installationKey
  return (← currentState).installationKeys.values

/-- Make an installation key; the result is its identifier. -/
def createInstallationKey (key : InstallationKey) : Call String := do
  check .create .installationKey
  let remote ← stamp "key" key
  let id := remote.info.id.getD ""
  let s ← currentState
  putState { s with installationKeys := s.installationKeys.insert id remote }
  record .created .installationKey key.desc
  return id

/-- Delete the installation key of an identifier. -/
def deleteInstallationKey (id : String) : Call Unit := do
  check .delete .installationKey
  let s ← currentState
  match s.installationKeys.get? id with
  | none => throw (.notFound s!"installation key '{id}'")
  | some key =>
      putState { s with installationKeys := s.installationKeys.erase id }
      record .deleted .installationKey key.body.desc

/-! ## §6. Settings. -/

/-- The value of a setting; empty when it is not set. -/
def orgValue (name : String) : Call String := do
  check .list .orgValue
  return ((← currentState).orgValues.get? name).getD ""

/-- Set a setting; an empty value unsets it and counts as a deletion. -/
def setOrgValue (name value : String) : Call Unit := do
  if value.isEmpty then check .delete .orgValue else check .create .orgValue
  let s ← currentState
  putState { s with orgValues := s.orgValues.insert name value }
  record (if value.isEmpty then .deleted else .created) .orgValue name

end Tenant

end TenantSync
