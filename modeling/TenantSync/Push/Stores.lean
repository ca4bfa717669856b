/-
  TenantSync.Push.Stores
  ──────────────────────
  **THE STORES OF A TENANT.**

      plain              a section, elements under their own names
      resources          subscriptions, named `category/name`
      rules              the rules of one namespace, named `namespace/rule`
      installationKeys   keys, found by description
      orgValues          the settings of a table, present when not empty

  A name that is put together from two is taken apart again before the tenant
  is called: a subscription at its first slash, a rule after its namespace.
-/
import TenantSync.Push.Reconcile
import TenantSync.Tenant.Basic

namespace TenantSync.Push

open Config

namespace Store

/-! ## §1. Plain sections. -/

/-- The store of a plain section. -/
def plain {α : Type} (s : Tenant.Section α) : Store Tenant α where
  element := s.element
  fetch := s.list
  create := s.add
  delete := fun name _ => s.delete name
  same := s.same

/-! ## §2. Resources. -/

/-- The name of a subscription. -/
def resourceName (category name : String) : String := category ++ "/" ++ name

/-- The two parts of a text around its first slash. -/
def splitAtSlash? : List Char → Option (List Char × List Char)
  | [] => none
  | c :: rest =>
      if c = '/' then some ([], rest) else (splitAtSlash? rest).map fun (a, b) => (c :: a, b)

/-- The category and the name of a subscription. -/
def splitResource (id : String) : Except TenantError (String × String) :=
  match splitAtSlash? id.toList with
  | some (category, name) => .ok (String.ofList category, String.ofList name)
  | none => .error (.rejected s!"malformed resource name '{id}'")

/-- The subscriptions of a tenant under their names. -/
def resourceElements (subscribed : NameMap NameSet) : NameMap (Remote Unit) :=
  NameMap.ofList <| subscribed.entries.flatMap fun (category, names) =>
    names.keys.map fun name => (resourceName category name, ⟨(), {}⟩)

/-- The store of subscriptions, which have no content. -/
def resources : Store Tenant Unit where
  element := .resource
  fetch := return resourceElements (← Tenant.resources)
  create := fun id _ => do
    let (category, name) ← liftExcept (splitResource id)
    Tenant.subscribe category name
  delete := fun id _ => do
    let (category, name) ← liftExcept (splitResource id)
    Tenant.unsubscribe category name
  same := fun _ _ => true
where
  /-- A result as a call. -/
  liftExcept {α : Type} : Except TenantError α → Tenant.Call α
    | .ok a => return a
    | .error e => throw e

/-! ## §3. Rules. -/

/-- The name of a rule of a namespace. -/
def ruleName (ns rule : String) : String := ns ++ "/" ++ rule

/-- What is left of a text behind another, if it begins with that. -/
def afterPart? : List Char → List Char → Option (List Char)
  | [], cs => some cs
  | _ :: _, [] => none
  | p :: ps, c :: cs => if p = c then afterPart? ps cs else none

/-- The rule that a name of a namespace stands for. -/
def ruleOf (ns id : String) : Except TenantError String :=
  match afterPart? (ns.toList ++ ['/']) id.toList with
  | some rule => .ok (String.ofList rule)
  | none => .error (.rejected s!"rule '{id}' is outside namespace '{ns}'")

/-- The store of the rules of a namespace. -/
def rules (ns : String) : Store Tenant Rule where
  element := .rule
  identity := fun name _ => ruleName ns name
  fetch := do
    let held ← Tenant.rules ns
    return NameMap.ofList (held.entries.map fun (name, rule) => (ruleName ns name, rule))
  create := fun id rule => do
    match ruleOf ns id with
    | .ok name => Tenant.addRule ns name rule
    | .error e => throw e
  delete := fun id _ => do
    match ruleOf ns id with
    | .ok name => Tenant.deleteRule ns name
    | .error e => throw e
  same := Rule.sameContent

/-! ## §4. Installation keys. -/

/-- The identity of a configured key: its description, or its name if it has
none. -/
def keyIdentity (name : String) (key : InstallationKey) : String :=
  if key.desc.isEmpty then name else key.desc

/-- Enter a key of the tenant under its description, or under its identifier if
it has none.  A key whose identity is taken is entered under both, so that it
can be seen and removed; one that has no identifier either is passed over. -/
def enterKey (keys : NameMap (Remote InstallationKey)) (key : Remote InstallationKey) :
    NameMap (Remote InstallationKey) :=
  let identity := if key.body.desc.isEmpty then key.info.id else some key.body.desc
  match identity with
  | none => keys
  | some identity =>
      if keys.contains identity then
        match key.info.id with
        | some id => keys.insert (identity ++ "#" ++ id) key
        | none => keys
      else keys.insert identity key

/-- The keys of a tenant by identity. -/
def keyElements (keys : List (Remote InstallationKey)) : NameMap (Remote InstallationKey) :=
  keys.foldl enterKey .empty

/-- The store of installation keys. -/
def installationKeys : Store Tenant InstallationKey where
  element := .installationKey
  identity := keyIdentity
  fetch := return keyElements (← Tenant.installationKeys)
  create := fun id key => do
    let _ ← Tenant.createInstallationKey { key with desc := id }
  delete := fun id key => do
    match key.info.id with
    | some keyId => Tenant.deleteInstallationKey keyId
    | none => throw (.notFound s!"no identifier for installation key '{id}'")
  same := InstallationKey.sameContent

/-! ## §5. Settings. -/

/-- The settings of tenants. -/
def supportedOrgValues : List String := ["otx", "pagerduty", "shodan", "twilio", "virustotal"]

/-- Read settings in turn; one that does not exist is not set. -/
def readOrgValues : List String → NameMap (Remote String) → Tenant.Call (NameMap (Remote String))
  | [], acc => return acc
  | key :: rest, acc => do
      let value ← tryCatch (Tenant.orgValue key) fun
        | .notFound _ => return ""
        | e => throw e
      readOrgValues rest (if value.isEmpty then acc else acc.insert key ⟨value, {}⟩)

/-- The store of the settings of a table. -/
def orgValues (table : List String) : Store Tenant String where
  element := .orgValue
  fetch := readOrgValues table .empty
  create := Tenant.setOrgValue
  delete := fun key _ => Tenant.setOrgValue key ""
  replace := fun key value _ => Tenant.setOrgValue key value
  same := fun a b => a == b

end Store

end TenantSync.Push
